import Mathlib.Data.Set.Card
import LayeredFetch.Headers

/-!
The keys of header fields.

The key of an entry is its name with the case folded. Observers stop at the first entry that
matches, or gather from all of them; they agree because there never is a second one.

* `Headers.WellFormed`: no two entries have the same key, and none is without values. Each
  operation keeps that (`WellFormed.perform`), so it holds of whatever a sequence of
  operations leaves (`WellFormed.after`).
* Where it holds, every entry that matches a name is the first one
  (`WellFormed.matching_eq_find?`), and the observers are all read off `Headers.all`.
* `Headers.one_entry_per_name`: both, for every sequence of operations.
-/

namespace LayeredFetch.Headers

open Text (sameFold fold)

variable {h : Headers} {name value : String} {entries : List (String × List String)}

/-- The names of some entries, with their case folded. -/
def keysOf (entries : List (String × List String)) : List (List Char) :=
  entries.map fun e => fold e.1

@[simp] lemma keysOf_cons (e : String × List String) :
    keysOf (e :: entries) = fold e.1 :: keysOf entries := rfl

/-- An entry matches a name if it has its key. -/
lemma exists_sameFold_iff :
    (∃ e ∈ entries, sameFold e.1 name = true) ↔ fold name ∈ keysOf entries := by
  simp [keysOf, Text.sameFold_iff]

/-! ### What operations do to keys -/

/-- A value is added to the entry with its key, or to a new one at the end. -/
lemma keysOf_appendTo (name value : String) (entries : List (String × List String)) :
    keysOf (appendTo name value entries) =
      if fold name ∈ keysOf entries then keysOf entries else keysOf entries ++ [fold name] := by
  induction entries with
  | nil => rfl
  | cons e rest ih =>
      obtain ⟨n, values⟩ := e
      rw [appendTo]
      by_cases hn : fold n = fold name
      · rw [if_pos (Text.sameFold_iff.2 hn), if_pos (hn ▸ List.mem_cons_self)]
        rfl
      · have hcons : fold name ∈ keysOf ((n, values) :: rest) ↔ fold name ∈ keysOf rest := by
          simp [Ne.symm hn]
        rw [if_neg fun hs => hn (Text.sameFold_iff.1 hs)]
        simp only [hcons]
        split
        · next hmem => exact congrArg (fold n :: ·) (ih.trans (if_pos hmem))
        · next hmem => exact congrArg (fold n :: ·) (ih.trans (if_neg hmem))

/-- Adding a value leaves no entry empty. -/
lemma inhabited_appendTo (hentries : ∀ e ∈ entries, e.2 ≠ []) :
    ∀ e ∈ appendTo name value entries, e.2 ≠ [] := by
  induction entries with
  | nil => simp [appendTo]
  | cons first rest ih =>
      obtain ⟨n, values⟩ := first
      obtain ⟨hfirst, hrest⟩ := List.forall_mem_cons.mp hentries
      rw [appendTo]
      split
      · exact List.forall_mem_cons.mpr ⟨by simp, hrest⟩
      · exact List.forall_mem_cons.mpr ⟨hfirst, ih hrest⟩

/-- No entry has the key of a name that is taken out. -/
lemma fold_notMem_keysOf_remove (h : Headers) (name : String) :
    fold name ∉ keysOf (h.remove name).2.entries := by
  rw [← exists_sameFold_iff, entries_remove]
  rintro ⟨e, he, hmatch⟩
  simp [hmatch] at he

/-! ### Well-formed fields -/

/-- Every entry has a key of its own, and none is without values. -/
structure WellFormed (h : Headers) : Prop where
  distinct : (keysOf h.entries).Nodup
  inhabited : ∀ e ∈ h.entries, e.2 ≠ []

lemma wellFormed_empty : empty.WellFormed := ⟨List.nodup_nil, by simp [empty]⟩

namespace WellFormed

/-- Taking out a name leaves some of the entries. -/
lemma remove (hw : h.WellFormed) (name : String) : (h.remove name).2.WellFormed where
  distinct := by
    rw [entries_remove]
    exact (List.filter_sublist.map _).nodup hw.distinct
  inhabited e he := by
    rw [entries_remove] at he
    exact hw.inhabited e (List.mem_of_mem_filter he)

/-- What is left has room for a new entry of that name. -/
lemma insert (hw : h.WellFormed) (name value : String) : (h.insert name value).WellFormed where
  distinct := by
    rw [Headers.insert, keysOf, List.map_append]
    exact (hw.remove name).distinct.append (List.nodup_singleton _)
      (List.disjoint_singleton.mpr (fold_notMem_keysOf_remove h name))
  inhabited := by
    rw [Headers.insert, List.forall_mem_append]
    exact ⟨(hw.remove name).inhabited, by simp⟩

lemma append (hw : h.WellFormed) (name value : String) : (h.append name value).WellFormed where
  distinct := by
    rw [Headers.append, keysOf_appendTo]
    split
    · exact hw.distinct
    · next hnew =>
        exact hw.distinct.append (List.nodup_singleton _) (List.disjoint_singleton.mpr hnew)
  inhabited := inhabited_appendTo hw.inhabited

lemma appendPairs (hw : h.WellFormed) (pairs : List (String × String)) :
    (h.appendPairs pairs).WellFormed := by
  induction pairs generalizing h with
  | nil => exact hw
  | cons pair rest ih => exact ih (hw.append pair.1 pair.2)

end WellFormed

/-- Fields that are collected from pairs are well-formed, whatever the pairs. -/
lemma wellFormed_ofPairs (pairs : List (String × String)) : (ofPairs pairs).WellFormed :=
  wellFormed_empty.appendPairs pairs

/-- **Every operation keeps fields well-formed.** -/
lemma WellFormed.perform (hw : h.WellFormed) (op : Op) : (h.perform op).2.WellFormed := by
  cases op with
  | clear => exact wellFormed_empty
  | collect pairs => exact wellFormed_ofPairs pairs
  | insert name value => exact hw.insert name value
  | append name value => exact hw.append name value
  | remove name => exact hw.remove name
  | _ => exact hw

/-- So does a sequence of operations. -/
lemma WellFormed.after (hw : h.WellFormed) (ops : List Op) : (h.after ops).WellFormed := by
  induction ops generalizing h with
  | nil => exact hw
  | cons op rest ih => exact ih (hw.perform op)

/-- Some sequence of operations leaves these fields. -/
def Reachable (h : Headers) : Prop := ∃ ops, empty.after ops = h

lemma Reachable.wellFormed (hr : h.Reachable) : h.WellFormed := by
  obtain ⟨ops, rfl⟩ := hr
  exact wellFormed_empty.after ops

/-! ### Observers of well-formed fields -/

namespace WellFormed

/-- Two entries that match the same name are the same entry. -/
lemma pairwise_sameFold (hw : h.WellFormed) :
    h.entries.Pairwise fun e f => sameFold e.1 f.1 = false := by
  refine (List.pairwise_map.mp hw.distinct).imp fun hne => ?_
  exact eq_false_of_ne_true fun hsame => hne (Text.sameFold_iff.mp hsame)

/-- Of distinct entries at most the first one that matches a name does. -/
lemma matching_eq_find? (hdistinct : (keysOf entries).Nodup) (name : String) :
    (entries.filter fun e => sameFold e.1 name) =
      (entries.find? fun e => sameFold e.1 name).toList := by
  induction entries with
  | nil => rfl
  | cons e rest ih =>
      obtain ⟨hnew, hrest⟩ := List.nodup_cons.mp (keysOf_cons e ▸ hdistinct)
      rw [List.filter_cons, List.find?_cons]
      cases hmatch : sameFold e.1 name with
      | false => exact ih hrest
      | true =>
          -- a second entry that matches would have the key of the first
          have hnone : (rest.filter fun f => sameFold f.1 name) = [] := by
            refine List.filter_eq_nil_iff.mpr fun f hf hsame => hnew ?_
            rw [Text.sameFold_iff.mp hmatch]
            exact exists_sameFold_iff.mp ⟨f, hf, hsame⟩
          exact congrArg (e :: ·) hnone

/-- Every value of a name is one of its entry. -/
lemma all_eq (hw : h.WellFormed) (name : String) : h.all name = (h.get? name).getD [] := by
  rw [all, matching_eq_find? hw.distinct, get?]
  cases h.entries.find? fun e => sameFold e.1 name <;> simp

/-- The values found under a name are all of its values, and there are some. -/
lemma get?_eq_some_iff (hw : h.WellFormed) (name : String) (values : List String) :
    h.get? name = some values ↔ h.all name = values ∧ values ≠ [] := by
  rw [hw.all_eq]
  cases hget : h.get? name with
  | none =>
      simp only [Option.getD_none, reduceCtorEq, false_iff, not_and, not_not]
      exact Eq.symm
  | some found =>
      obtain ⟨e, hfind, rfl⟩ := Option.map_eq_some_iff.mp hget
      have hne := hw.inhabited e (List.mem_of_find?_eq_some hfind)
      simp only [Option.some.injEq, Option.getD_some]
      exact ⟨fun hsame => ⟨hsame, hsame ▸ hne⟩, fun hsame => hsame.1⟩

lemma first?_eq (hw : h.WellFormed) (name : String) : h.first? name = (h.all name).head? := by
  rw [first?, hw.all_eq]
  cases h.get? name <;> rfl

lemma contains_iff (hw : h.WellFormed) (name : String) :
    h.contains name = true ↔ h.all name ≠ [] := by
  rw [contains, Option.isSome_iff_exists]
  simp [hw.get?_eq_some_iff]

/-- There is an entry for each name with values, up to its case. -/
lemma size_eq (hw : h.WellFormed) :
    h.size = (fold '' {name | h.all name ≠ []}).ncard := by
  have hkeys : fold '' {name | h.all name ≠ []} = ↑(keysOf h.entries).toFinset := by
    ext key
    simp only [← hw.contains_iff, contains, get?]
    constructor
    · rintro ⟨name, hname, rfl⟩
      simpa [keysOf, Text.sameFold_iff] using hname
    · intro hkey
      obtain ⟨e, he, rfl⟩ := List.mem_map.mp (List.mem_toFinset.mp hkey)
      exact ⟨e.1, by simpa using ⟨e.1, ⟨e.2, he⟩, Text.sameFold_self e.1⟩, rfl⟩
  rw [hkeys, Set.ncard_coe_finset, List.toFinset_card_of_nodup hw.distinct, keysOf,
    List.length_map, size]

end WellFormed

/-- **One entry for each name.** Whatever operations are performed on header fields, with
whatever names and values, no two entries match and none is empty. So under every name the
first entry that matches has all the values of the name, and the number of entries is the
number of names, up to their case, that have values. -/
theorem one_entry_per_name (ops : List Op) :
    ((empty.after ops).entries.Pairwise fun e f => sameFold e.1 f.1 = false) ∧
    (∀ e ∈ (empty.after ops).entries, e.2 ≠ []) ∧
    (∀ name,
      (∀ values, (empty.after ops).get? name = some values ↔
        (empty.after ops).all name = values ∧ values ≠ []) ∧
      (empty.after ops).first? name = ((empty.after ops).all name).head? ∧
      ((empty.after ops).contains name = true ↔ (empty.after ops).all name ≠ [])) ∧
    (empty.after ops).size = (fold '' {name | (empty.after ops).all name ≠ []}).ncard := by
  have hw : (empty.after ops).WellFormed := wellFormed_empty.after ops
  exact ⟨hw.pairwise_sameFold, hw.inhabited,
    fun name => ⟨hw.get?_eq_some_iff name, hw.first?_eq name, hw.contains_iff name⟩, hw.size_eq⟩

/-- The two spellings of a name share an entry, and there are two entries for three names. -/
example :
    (empty.after [.append "etag" "a", .insert "Link" "b", .append "ETag" "c"]).entries =
      [("etag", ["a", "c"]), ("Link", ["b"])] := by
  decide

end LayeredFetch.Headers
