import LayeredFetch.Proofs.Headers.Multimap

/-!
Header fields collected from pairs of a name and a value, and listed as such pairs.

* **Collecting.** The values of a pair list come under their names, behind those that are
  there (`WellFormed.all_appendPairs`), and names that are new follow in the order and the
  spelling of their first appearance (`WellFormed.names_appendPairs`).
* **Listing.** Well-formed fields are collected from the pairs that they are listed as
  (`WellFormed.ofPairs_pairs`). So fields are well-formed if and only if operations can leave
  them (`reachable_iff_wellFormed`).
* `collecting_loses_nothing`: both directions.
-/

namespace LayeredFetch.Headers

open Text (sameFold fold)

variable {h : Headers} {name value : String} {entries rest : List (String × List String)}

/-- The names of the entries, as they are spelled, in order. -/
def names (h : Headers) : List String := h.entries.map Prod.fst

lemma contains_eq_any (h : Headers) (name : String) :
    h.contains name = h.names.any (sameFold name) := by
  rw [Bool.eq_iff_iff, contains, get?, Option.isSome_map, List.find?_isSome, names, List.any_map,
    List.any_eq_true]
  simp only [Function.comp_apply, Text.sameFold_comm name]

lemma contains_congr {other : String} (hmatch : sameFold name other = true) :
    h.contains name = h.contains other := by
  rw [contains_eq_any, contains_eq_any]
  exact congrArg h.names.any (funext (Text.sameFold_congr hmatch))

/-! ### Collecting -/

/-- A name that is new comes last, as it is spelled. -/
lemma WellFormed.names_append (hw : h.WellFormed) (name value : String) :
    (h.append name value).names =
      if h.names.any (sameFold name) then h.names else h.names ++ [name] := by
  rw [names, hw.entries_append, contains_eq_any]
  split
  · rw [List.map_map]
    rfl
  · rw [List.map_append]
    rfl

/-- The names of pairs follow those that are there, each as it is spelled first. -/
lemma WellFormed.names_appendPairs (hw : h.WellFormed) (pairs : List (String × String)) :
    (h.appendPairs pairs).names =
      h.names ++ ((pairs.map Prod.fst).filter fun n => !h.names.any (sameFold n)).eraseDupsBy
        sameFold := by
  induction pairs generalizing h with
  | nil => simp [Headers.appendPairs]
  | cons pair pairs ih =>
      obtain ⟨n, v⟩ := pair
      have hrest := ih (hw.append n v)
      rw [hw.names_append] at hrest
      rw [List.map_cons, List.filter_cons]
      by_cases hn : h.names.any (sameFold n) = true
      · rw [if_pos hn] at hrest
        rw [hn]
        exact hrest
      · -- of the later names those that match the new one are left out as well
        have hleft : ((pairs.map Prod.fst).filter fun m =>
            !(h.names ++ [n]).any (sameFold m)) =
              ((pairs.map Prod.fst).filter fun m => !h.names.any (sameFold m)).filter fun m =>
                sameFold m n = false := by
          rw [List.filter_filter]
          refine List.filter_congr fun m _ => ?_
          cases hmn : sameFold m n <;> simp [hmn]
        rw [if_neg hn, hleft, List.append_assoc] at hrest
        rw [eq_false_of_ne_true hn, Bool.not_false, if_pos rfl, List.eraseDupsBy_cons]
        exact hrest

/-- The values of pairs come after those that their names have. -/
lemma WellFormed.all_appendPairs (hw : h.WellFormed) (pairs : List (String × String))
    (name : String) :
    (h.appendPairs pairs).all name =
      h.all name ++ (pairs.filter fun p => sameFold p.1 name).map Prod.snd := by
  induction pairs generalizing h with
  | nil => simp [Headers.appendPairs]
  | cons pair pairs ih =>
      have hrest := ih (hw.append pair.1 pair.2)
      rw [hw.all_append] at hrest
      rw [List.filter_cons]
      refine Eq.trans hrest ?_
      split <;> simp

/-- **Collected fields have all values of the pairs**, and no others. -/
lemma all_ofPairs (pairs : List (String × String)) (name : String) :
    (ofPairs pairs).all name = (pairs.filter fun p => sameFold p.1 name).map Prod.snd :=
  wellFormed_empty.all_appendPairs pairs name

/-- **Their names** are those of the pairs, each at the place and in the spelling of its first
appearance. -/
lemma names_ofPairs (pairs : List (String × String)) :
    (ofPairs pairs).names = (pairs.map Prod.fst).eraseDupsBy sameFold := by
  have hnames := wellFormed_empty.names_appendPairs pairs
  have hnone : ∀ n, (!empty.names.any (sameFold n)) = true := fun _ => rfl
  rw [List.filter_eq_self.mpr fun n _ => hnone n] at hnames
  exact hnames

/-! ### Several values of one name -/

/-- A value that is added passes over entries that do not match. -/
lemma appendTo_append (hno : ∀ e ∈ entries, sameFold e.1 name = false) (value : String)
    (rest : List (String × List String)) :
    appendTo name value (entries ++ rest) = entries ++ appendTo name value rest := by
  induction entries with
  | nil => rfl
  | cons e entries ih =>
      obtain ⟨he, hentries⟩ := List.forall_mem_cons.mp hno
      rw [List.cons_append, appendTo, if_neg (by simp [he]), ih hentries, List.cons_append]

/-- Values added one after another to the last entry come after those that it has. -/
lemma entries_appendPairs_last (hno : ∀ e ∈ entries, sameFold e.1 name = false)
    (given values : List String) :
    (appendPairs ⟨entries ++ [(name, given)]⟩ (values.map (name, ·))).entries =
      entries ++ [(name, given ++ values)] := by
  induction values generalizing given with
  | nil => simp [appendPairs]
  | cons v values ih =>
      have hone : append ⟨entries ++ [(name, given)]⟩ name v =
          ⟨entries ++ [(name, given ++ [v])]⟩ := by
        rw [append, appendTo_append hno, appendTo, if_pos (Text.sameFold_self name)]
      have hrest := ih (given ++ [v])
      rw [List.append_assoc, List.singleton_append, ← hone] at hrest
      exact hrest

/-- Values added to a name that has none make one entry, the last. -/
lemma entries_appendPairs_new (hno : ∀ e ∈ h.entries, sameFold e.1 name = false)
    (values : List String) :
    (h.appendPairs (values.map (name, ·))).entries =
      h.entries ++ if values = [] then [] else [(name, values)] := by
  cases values with
  | nil => simp [appendPairs]
  | cons v values =>
      have hone : h.append name v = ⟨h.entries ++ [(name, [v])]⟩ := by
        have hnew := appendTo_append hno v []
        rw [List.append_nil] at hnew
        rw [append, hnew, appendTo]
      have hall := entries_appendPairs_last hno [v] values
      rw [← hone] at hall
      rw [if_neg (List.cons_ne_nil v values)]
      exact hall

/-! ### Listing -/

lemma appendPairs_append (h : Headers) (pairs later : List (String × String)) :
    h.appendPairs (pairs ++ later) = (h.appendPairs pairs).appendPairs later :=
  List.foldl_append

/-- Entries with keys of their own and values, added pair by pair, come out as they are. -/
lemma appendPairs_pairs (entries : List (String × List String))
    (hdistinct : (keysOf (entries ++ rest)).Nodup) (hinhabited : ∀ e ∈ rest, e.2 ≠ []) :
    appendPairs ⟨entries⟩ (pairs ⟨rest⟩) = ⟨entries ++ rest⟩ := by
  induction rest generalizing entries with
  | nil => simp [pairs, appendPairs]
  | cons e rest ih =>
      obtain ⟨n, values⟩ := e
      obtain ⟨hvalues, hrest⟩ := List.forall_mem_cons.mp hinhabited
      have hno : ∀ f ∈ entries, sameFold f.1 n = false := by
        rw [keysOf, List.map_append] at hdistinct
        have hapart := (List.nodup_append.mp hdistinct).2.2
        refine fun f hf => eq_false_of_ne_true fun hmatch => ?_
        exact hapart (fold f.1) (List.mem_map_of_mem hf) (fold n) List.mem_cons_self
          (Text.sameFold_iff.mp hmatch)
      have hone : appendPairs ⟨entries⟩ (values.map (n, ·)) = ⟨entries ++ [(n, values)]⟩ := by
        have hentries : (appendPairs ⟨entries⟩ (values.map (n, ·))).entries =
            entries ++ if values = [] then [] else [(n, values)] :=
          entries_appendPairs_new hno values
        rw [if_neg hvalues] at hentries
        exact congrArg Headers.mk hentries
      have hlist : pairs ⟨(n, values) :: rest⟩ = values.map (n, ·) ++ pairs ⟨rest⟩ := rfl
      have hsplit : entries ++ (n, values) :: rest = (entries ++ [(n, values)]) ++ rest := by simp
      rw [hsplit] at hdistinct ⊢
      rw [hlist, appendPairs_append, hone, ih _ hdistinct hrest]

/-- **Well-formed fields come back** from the pairs that they are listed as. -/
theorem WellFormed.ofPairs_pairs (hw : h.WellFormed) : ofPairs h.pairs = h :=
  appendPairs_pairs [] hw.distinct hw.inhabited

/-- Operations can leave all well-formed fields, and no others. -/
theorem reachable_iff_wellFormed : h.Reachable ↔ h.WellFormed :=
  ⟨Reachable.wellFormed, fun hw => ⟨[.collect h.pairs], hw.ofPairs_pairs⟩⟩

/-- **Collecting loses nothing.** Whatever pairs are collected, each name has the values of the
pairs that match it, in their order, and the entries stand in the order and in the spelling in
which their names first appear. Fields that operations can leave, listed as pairs and
collected again, are the same fields. -/
theorem collecting_loses_nothing :
    (∀ pairs : List (String × String),
      (∀ name, (ofPairs pairs).all name =
        (pairs.filter fun p => sameFold p.1 name).map Prod.snd) ∧
      (ofPairs pairs).entries.map Prod.fst = (pairs.map Prod.fst).eraseDupsBy sameFold) ∧
    ∀ h : Headers, h.Reachable → ofPairs h.pairs = h :=
  ⟨fun pairs => ⟨all_ofPairs pairs, names_ofPairs pairs⟩,
    fun _ hr => hr.wellFormed.ofPairs_pairs⟩

/-- Pairs of two names, one of them in three spellings. -/
def interleaved : List (String × String) :=
  [("Link", "a"), ("ETag", "v"), ("LINK", "b"), ("link", "c")]

/-- The three values meet under the first spelling; and an entry that was put in again after
others comes back in its new place. -/
theorem collecting_loses_nothing_interleaved :
    (ofPairs interleaved).all "lINK" = ["a", "b", "c"] ∧
    (ofPairs interleaved).entries.map Prod.fst = ["Link", "ETag"] ∧
    let h := (ofPairs interleaved).after [.insert "LINK" "d", .append "link" "e"]
    h.entries = [("ETag", ["v"]), ("LINK", ["d", "e"])] ∧ ofPairs h.pairs = h := by
  obtain ⟨hcollect, hlist⟩ := collecting_loses_nothing
  obtain ⟨hvalues, hnames⟩ := hcollect interleaved
  refine ⟨(hvalues "lINK").trans (by decide), hnames.trans (by decide), by decide, ?_⟩
  exact hlist _ ⟨[.collect interleaved, .insert "LINK" "d", .append "link" "e"], rfl⟩

end LayeredFetch.Headers
