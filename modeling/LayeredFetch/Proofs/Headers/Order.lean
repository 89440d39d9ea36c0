import LayeredFetch.Proofs.Headers.Keys

/-!
Header fields in another order.

* `WellFormed.same_iff_perm`: well-formed fields are the same if and only if they have the
  same entries in some order.
* `Equal`: two well-formed headers with the same entries in some order, which is what `same`
  decides (`equal_iff_same`).
* `Equal.insert` and `WellFormed.insert_comm`: the order of the entries makes no difference to
  what a field that is put in does to them, and the order in which two fields are put in makes
  no difference but to their order.
-/

namespace LayeredFetch.Headers

open Text (sameFold)

variable {g h k : Headers} {name other : String}

/-! ### Equality -/

namespace WellFormed

/-- No two entries are spelled alike. -/
lemma nodup_names (hw : h.WellFormed) : (h.entries.map Prod.fst).Nodup := by
  have hkeys : ((h.entries.map Prod.fst).map Text.fold).Nodup := by
    rw [List.map_map]
    exact hw.distinct
  exact hkeys.of_map _

/-- An entry is found under its name. -/
lemma lookup_eq_some_iff (hw : h.WellFormed) (values : List String) :
    h.entries.lookup name = some values ↔ (name, values) ∈ h.entries := by
  have hnames := hw.nodup_names
  generalize h.entries = entries at hnames
  induction entries with
  | nil => simp
  | cons e rest ih =>
      obtain ⟨n, vs⟩ := e
      obtain ⟨hnew, hrest⟩ := List.nodup_cons.mp hnames
      by_cases hn : name = n
      · subst hn
        have hlater : (name, values) ∉ rest := fun hin => hnew (List.mem_map.mpr ⟨_, hin, rfl⟩)
        simp [hlater, eq_comm]
      · simp [List.lookup_cons, beq_false_of_ne hn, hn, ih hrest]

/-- **Equality ignores the order of entries**, and nothing else. -/
theorem same_iff_perm (hg : g.WellFormed) (hh : h.WellFormed) :
    g.same h = true ↔ g.entries.Perm h.entries := by
  rw [same, Bool.and_eq_true, beq_iff_eq, List.all_eq_true]
  simp only [beq_iff_eq, hh.lookup_eq_some_iff]
  constructor
  · rintro ⟨hsize, hsub⟩
    have hentries : g.entries.Nodup := hg.nodup_names.of_map _
    exact (List.subperm_of_subset hentries hsub).perm_of_length_le hsize.ge
  · intro hperm
    exact ⟨hperm.length_eq, fun _ he => hperm.subset he⟩

/-- Fields that are the same have the same values under every name. -/
lemma all_eq_of_same (hg : g.WellFormed) (hh : h.WellFormed) (hsame : g.same h = true)
    (name : String) : g.all name = h.all name := by
  have hmatch := ((hg.same_iff_perm hh).mp hsame).filter fun e => sameFold e.1 name
  rw [all, all]
  rw [matching_eq_find? hg.distinct, matching_eq_find? hh.distinct] at hmatch ⊢
  -- in either order there is at most one entry to take values from
  have hone : ∀ {o o' : Option (String × List String)}, o.toList.Perm o'.toList → o = o' := by
    intro o o' hperm
    cases o <;> cases o' <;> simp_all
  rw [hone hmatch]

end WellFormed

/-- Two well-formed headers with the same entries, up to their order. -/
structure Equal (g h : Headers) : Prop where
  left : g.WellFormed
  right : h.WellFormed
  perm : g.entries.Perm h.entries

lemma equal_iff_same (hg : g.WellFormed) (hh : h.WellFormed) : g.Equal h ↔ g.same h = true :=
  ⟨fun he => (hg.same_iff_perm hh).mpr he.perm, fun hs => ⟨hg, hh, (hg.same_iff_perm hh).mp hs⟩⟩

namespace Equal

lemma refl (hw : h.WellFormed) : h.Equal h := ⟨hw, hw, List.Perm.refl _⟩

lemma symm (he : g.Equal h) : h.Equal g := ⟨he.right, he.left, he.perm.symm⟩

lemma trans (he : g.Equal h) (he' : h.Equal k) : g.Equal k :=
  ⟨he.left, he'.right, he.perm.trans he'.perm⟩

lemma same (he : g.Equal h) : g.same h = true := (equal_iff_same he.left he.right).mp he

end Equal

/-! ### Putting in -/

lemma entries_insert (h : Headers) (name value : String) :
    (h.insert name value).entries =
      (h.entries.filter fun e => !sameFold e.1 name) ++ [(name, [value])] := by
  rw [insert, entries_remove]

/-- A field that is put in takes the place of one of its name that was put in before. -/
lemma insert_insert_self (h : Headers) (name value value' : String) :
    (h.insert name value).insert name value' = h.insert name value' := by
  rw [insert, remove_insert_self (Text.sameFold_self name), ← insert]

/-- A field put in does the same to entries in any order. -/
lemma Equal.insert (he : g.Equal h) (name value : String) :
    (g.insert name value).Equal (h.insert name value) where
  left := he.left.insert name value
  right := he.right.insert name value
  perm := by
    rw [entries_insert, entries_insert]
    exact (he.perm.filter _).append_right _

/-- Two fields of different names may be put in in either order. -/
lemma WellFormed.insert_comm (hw : h.WellFormed) (hne : sameFold name other = false)
    (value value' : String) :
    ((h.insert name value).insert other value').Equal
      ((h.insert other value').insert name value) where
  left := (hw.insert name value).insert other value'
  right := (hw.insert other value').insert name value
  perm := by
    have hne' : sameFold other name = false := Text.sameFold_comm name other ▸ hne
    simp only [entries_insert, List.filter_append, List.filter_filter, List.append_assoc]
    simp only [List.filter_cons, List.filter_nil, hne, hne', Bool.not_false, if_true]
    simp only [Bool.and_comm]
    exact (List.Perm.swap _ _ []).append_left _

end LayeredFetch.Headers
