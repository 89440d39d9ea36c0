import LayeredFetch.Proofs.Headers.Order

/-!
Header fields as an ordered multimap.

* `Multimap` is the plain thing: an association list from keys to values, on which every
  operation is a filter, a map, or one more entry at the end.
* `keyed` forgets how names are spelled. It goes along with every operation
  (`WellFormed.keyed_perform`) and so with every sequence of them (`keyed_after`), and the
  values of a name are those of its key (`WellFormed.all_eq_values`).
* `ordered_multimap`: what each operation does to the entries, and to the values of every
  name.
-/

namespace LayeredFetch

open Text (sameFold fold)

/-! ### Association lists -/

/-- An ordered multimap: keys, each with its values. -/
abbrev Multimap := List (List Char × List String)

namespace Multimap

variable {m : Multimap} {key other : List Char} {value : String}

/-- The values of a key. -/
def values (m : Multimap) (key : List Char) : List String := (m.lookup key).getD []

/-- Takes out a key. -/
def erase (m : Multimap) (key : List Char) : Multimap := m.filter (·.1 != key)

/-- Gives a key a single value, and the last place. -/
def put (m : Multimap) (key : List Char) (value : String) : Multimap :=
  m.erase key ++ [(key, [value])]

/-- Adds a value to a key where it stands, or else the key at the end. -/
def add (m : Multimap) (key : List Char) (value : String) : Multimap :=
  if (m.lookup key).isSome then m.map fun e => (e.1, if e.1 = key then e.2 ++ [value] else e.2)
  else m ++ [(key, [value])]

/-- Adds pairs of a name and a value, in order. -/
def addPairs (m : Multimap) (pairs : List (String × String)) : Multimap :=
  pairs.foldl (fun m pair => m.add (fold pair.1) pair.2) m

/-- What an operation on header fields does to keys and values. -/
def apply (m : Multimap) : Headers.Op → Multimap
  | .clear => []
  | .collect pairs => addPairs [] pairs
  | .insert name value => m.put (fold name) value
  | .append name value => m.add (fold name) value
  | .remove name => m.erase (fold name)
  | _ => m

/-- What a sequence of operations leaves, from nothing. -/
def after (ops : List Headers.Op) : Multimap := ops.foldl apply []

/-- Values that change by their keys are found changed. -/
lemma lookup_map (m : Multimap) (f : List Char → List String → List String)
    (key : List Char) :
    (m.map fun e => (e.1, f e.1 e.2)).lookup key = (m.lookup key).map (f key) := by
  induction m with
  | nil => rfl
  | cons e m ih =>
      obtain ⟨k, vs⟩ := e
      by_cases hkey : key = k
      · subst hkey
        simp
      · have hne : (key == k) = false := beq_false_of_ne hkey
        simp [List.lookup_cons, hne, ih]

/-- **A value that is added comes after the others** of its key; those of other keys stay as
they are. -/
lemma values_add : (m.add key value).values other =
    if key = other then m.values other ++ [value] else m.values other := by
  rw [values, values, add]
  split
  · next hsome =>
      obtain ⟨vs, hvs⟩ := Option.isSome_iff_exists.mp hsome
      rw [m.lookup_map fun k vs => if k = key then vs ++ [value] else vs]
      by_cases h : key = other
      · subst h
        simp [hvs]
      · simp [h, Ne.symm h]
  · next hnone =>
      rw [Option.not_isSome_iff_eq_none] at hnone
      rw [List.lookup_append]
      by_cases h : key = other
      · subst h
        simp [hnone]
      · have hne : (other == key) = false := beq_false_of_ne (Ne.symm h)
        simp [List.lookup_cons, hne, h]

end Multimap

namespace Headers

variable {h : Headers} {name value : String} {entries : List (String × List String)}

/-! ### Header fields without their spelling -/

/-- The entries of header fields under their keys, in order. -/
def keyed (h : Headers) : Multimap := h.entries.map fun e => (fold e.1, e.2)

/-- A key is looked up where its name is. -/
lemma lookup_keyed (h : Headers) (name : String) : h.keyed.lookup (fold name) = h.get? name := by
  rw [keyed, get?]
  induction h.entries with
  | nil => rfl
  | cons e rest ih =>
      have hkey : (fold name == fold e.1) = sameFold e.1 name := Bool.beq_comm
      rw [List.map_cons, List.lookup_cons, List.find?_cons, hkey]
      cases sameFold e.1 name with
      | false => exact ih
      | true => rfl

lemma contains_iff_lookup : h.contains name = (h.keyed.lookup (fold name)).isSome := by
  rw [lookup_keyed, contains]

/-- The values of a name are those of its key. -/
lemma WellFormed.all_eq_values (hw : h.WellFormed) (name : String) :
    h.all name = h.keyed.values (fold name) := by
  rw [hw.all_eq, Multimap.values, lookup_keyed]

/-! ### Adding a value -/

/-- A value added to distinct entries goes to the one that matches, or to a new one after
all of them. -/
lemma appendTo_eq (hdistinct : (keysOf entries).Nodup) :
    appendTo name value entries =
      if fold name ∈ keysOf entries then
        entries.map fun e => (e.1, if sameFold e.1 name then e.2 ++ [value] else e.2)
      else entries ++ [(name, [value])] := by
  induction entries with
  | nil => rfl
  | cons e rest ih =>
      obtain ⟨hnew, hrest⟩ := List.nodup_cons.mp (keysOf_cons e ▸ hdistinct)
      obtain ⟨n, values⟩ := e
      rw [appendTo]
      by_cases hn : sameFold n name = true
      · have hkey : fold n = fold name := Text.sameFold_iff.mp hn
        -- no later entry matches
        have hlater : (rest.map fun e =>
            (e.1, if sameFold e.1 name then e.2 ++ [value] else e.2)) = rest := by
          refine (List.map_congr_left fun e he => ?_).trans (List.map_id' rest)
          have hne : sameFold e.1 name ≠ true := fun hmatch =>
            hnew (hkey ▸ exists_sameFold_iff.mp ⟨e, he, hmatch⟩)
          rw [if_neg hne]
        rw [if_pos hn, if_pos (by simp [hkey]), List.map_cons, if_pos hn, hlater]
      · have hmem : fold name ∈ keysOf ((n, values) :: rest) ↔ fold name ∈ keysOf rest := by
          simp only [keysOf_cons, List.mem_cons, or_iff_right_iff_imp]
          exact fun hkey => absurd (Text.sameFold_iff.mpr hkey.symm) hn
        rw [if_neg hn, ih hrest]
        simp only [hmem, List.map_cons, if_neg hn]
        split <;> rfl

/-- The entries after a value is added: the name stands where it stood, as it was spelled,
or comes last. -/
lemma WellFormed.entries_append (hw : h.WellFormed) (name value : String) :
    (h.append name value).entries =
      if h.contains name then
        h.entries.map fun e => (e.1, if sameFold e.1 name then e.2 ++ [value] else e.2)
      else h.entries ++ [(name, [value])] := by
  have hcontains : h.contains name = true ↔ fold name ∈ keysOf h.entries := by
    rw [← exists_sameFold_iff, contains, get?, Option.isSome_map, List.find?_isSome]
  rw [Headers.append, appendTo_eq hw.distinct]
  simp only [hcontains]

/-! ### Operations -/

lemma keyed_remove (h : Headers) (name : String) :
    (h.remove name).2.keyed = h.keyed.erase (fold name) := by
  rw [keyed, keyed, entries_remove, Multimap.erase, List.filter_map]
  rfl

lemma keyed_insert (h : Headers) (name value : String) :
    (h.insert name value).keyed = h.keyed.put (fold name) value := by
  rw [Multimap.put, ← keyed_remove, keyed, insert, List.map_append]
  rfl

namespace WellFormed

lemma keyed_append (hw : h.WellFormed) (name value : String) :
    (h.append name value).keyed = h.keyed.add (fold name) value := by
  rw [keyed, hw.entries_append, Multimap.add, contains_iff_lookup]
  split
  · rw [keyed, List.map_map, List.map_map]
    refine List.map_congr_left fun e _ => ?_
    simp [Text.sameFold_iff]
  · rw [List.map_append]
    rfl

lemma keyed_appendPairs (hw : h.WellFormed) (pairs : List (String × String)) :
    (h.appendPairs pairs).keyed = h.keyed.addPairs pairs := by
  induction pairs generalizing h with
  | nil => rfl
  | cons pair rest ih =>
      obtain ⟨name, value⟩ := pair
      have hrest := ih (hw.append name value)
      rw [hw.keyed_append] at hrest
      exact hrest

/-- **Every operation goes along** with the one on keys. -/
lemma keyed_perform (hw : h.WellFormed) (op : Op) :
    (h.perform op).2.keyed = h.keyed.apply op := by
  cases op with
  | clear => rfl
  | collect pairs => exact wellFormed_empty.keyed_appendPairs pairs
  | insert name value => exact keyed_insert h name value
  | append name value => exact hw.keyed_append name value
  | remove name => exact keyed_remove h name
  | _ => rfl

end WellFormed

/-- So does every sequence of operations. -/
lemma keyed_after (ops : List Op) : (empty.after ops).keyed = Multimap.after ops := by
  have hrun : ∀ h : Headers, h.WellFormed →
      (h.after ops).keyed = ops.foldl Multimap.apply h.keyed := by
    induction ops with
    | nil => exact fun _ _ => rfl
    | cons op rest ih =>
        intro h hw
        rw [List.foldl_cons, ← hw.keyed_perform]
        exact ih _ (hw.perform op)
  exact hrun empty wellFormed_empty

/-- A value that is added comes after the others of the name. -/
lemma WellFormed.all_append (hw : h.WellFormed) (name other value : String) :
    (h.append name value).all other =
      if sameFold name other then h.all other ++ [value] else h.all other := by
  rw [(hw.append name value).all_eq_values, hw.keyed_append, Multimap.values_add,
    hw.all_eq_values]
  simp only [Text.sameFold_iff]

/-- **Header fields are an ordered multimap.** Whatever operations were performed before, to
put in a field takes all entries of the name away and puts one with the new value last; to add
a value leaves every entry where it is, spelled as it is, and gives the value the last place
among those of the name, or the name the last place; to take out a name gives its values and
leaves the other entries as they are. So the values of every name are those that the same
operations leave under its key in an association list. -/
theorem ordered_multimap (ops : List Op) :
    let h := empty.after ops
    (∀ name value,
      (h.insert name value).entries =
        (h.entries.filter fun e => !sameFold e.1 name) ++ [(name, [value])] ∧
      ∀ other, (h.insert name value).all other =
        if sameFold name other then [value] else h.all other) ∧
    (∀ name value,
      (h.append name value).entries =
        (if h.contains name then
          h.entries.map fun e => (e.1, if sameFold e.1 name then e.2 ++ [value] else e.2)
        else h.entries ++ [(name, [value])]) ∧
      ∀ other, (h.append name value).all other =
        if sameFold name other then h.all other ++ [value] else h.all other) ∧
    (∀ name,
      (h.remove name).1 = h.all name ∧
      (h.remove name).2.entries = h.entries.filter fun e => !sameFold e.1 name) ∧
    h.keyed = Multimap.after ops ∧
    ∀ name, h.all name = (Multimap.after ops).values (fold name) := by
  intro h
  have hw : h.WellFormed := wellFormed_empty.after ops
  refine ⟨fun name value => ⟨h.entries_insert name value, fun other => ?_⟩,
    fun name value => ⟨hw.entries_append name value, fun other => ?_⟩,
    fun name => ⟨h.remove_fst name, h.entries_remove name⟩, keyed_after ops, fun name => ?_⟩
  · exact h.all_insert name other value
  · exact hw.all_append name other value
  · rw [hw.all_eq_values, keyed_after]

/-- A value added in another spelling goes to the entry that is there. -/
example :
    ((empty.after [.insert "Vary" "a", .append "Link" "b"]).append "VARY" "c").entries =
      [("Vary", ["a", "c"]), ("Link", ["b"])] := by
  decide

end Headers

end LayeredFetch
