/-!
Tables: finite maps from names to values.

A table is an association list whose names are distinct; that is part of its
type. It is observed through `get?` and `size`, and every operation comes with
its equation for `get?`.
-/

namespace LayeredFetch

/-- A finite map from texts to values. -/
structure Table (α : Type) where
  entries : List (String × α)
  nodup : (entries.map Prod.fst).Nodup

namespace Table

variable {α : Type} {name other : String} {value : α} {t : Table α}

/-! ### Operations -/

/-- The table without entries. -/
def empty : Table α := ⟨[], List.nodup_nil⟩

instance : EmptyCollection (Table α) := ⟨empty⟩
instance : Inhabited (Table α) := ⟨empty⟩

/-- The number of entries. -/
def size (t : Table α) : Nat := t.entries.length

/-- Whether there is no entry. -/
def isEmpty (t : Table α) : Bool := t.entries.isEmpty

/-- The value under a name. -/
def get? (t : Table α) (name : String) : Option α := t.entries.lookup name

/-- The table without the entry under a name. -/
def erase (t : Table α) (name : String) : Table α where
  entries := t.entries.filter (·.1 != name)
  nodup := (List.filter_sublist.map Prod.fst).nodup t.nodup

/-- The table with a value under a name, in place of what was there. -/
def insert (t : Table α) (name : String) (value : α) : Table α where
  entries := (name, value) :: (t.erase name).entries
  nodup := by
    refine List.nodup_cons.2 ⟨?_, (t.erase name).nodup⟩
    simp [erase]

/-! ### What each operation does to the view -/

@[simp] theorem get?_empty : (empty : Table α).get? name = none := rfl

theorem lookup_filter_ne (l : List (String × α)) (h : other ≠ name) :
    (l.filter (·.1 != name)).lookup other = l.lookup other := by
  induction l with
  | nil => rfl
  | cons e l ih =>
      obtain ⟨k, v⟩ := e
      by_cases hk : k = name
      · simp [hk, List.lookup_cons, ih, show (other == name) = false by simp [h]]
      · simp [hk, List.lookup_cons, ih]

theorem lookup_filter_self (l : List (String × α)) :
    (l.filter (·.1 != name)).lookup name = none := by
  induction l with
  | nil => rfl
  | cons e l ih =>
      obtain ⟨k, v⟩ := e
      by_cases hk : k = name
      · simp [hk, ih]
      · simp [hk, List.lookup_cons, ih, show (name == k) = false by simp [Ne.symm hk]]

theorem get?_erase : (t.erase name).get? other = if other = name then none else t.get? other := by
  by_cases h : other = name
  · simp [get?, erase, h, lookup_filter_self]
  · simp [get?, erase, h, lookup_filter_ne _ h]

theorem get?_insert :
    (t.insert name value).get? other = if other = name then some value else t.get? other := by
  by_cases h : other = name
  · simp [get?, insert, h]
  · have hb : (other == name) = false := by simp [h]
    simp [get?, insert, erase, h, List.lookup_cons, hb, lookup_filter_ne _ h]

@[simp] theorem get?_insert_self : (t.insert name value).get? name = some value := by
  simp [get?_insert]

end Table

end LayeredFetch
