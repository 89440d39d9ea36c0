import LayeredFetch.Text.Fold

/-!
Header fields: an ordered multimap from names to values.

Names match when they differ at most in ASCII case. Entries keep the order in
which their names first came, and the spelling of that first time; each holds the
values of its name in the order in which they came.

* **View.** `all name` lists every value of every entry that matches a name; the
  other observers are about the first such entry.
* **Changes.** `insert` puts a name last with a single value, `append` adds a
  value to the first entry that matches, `remove` takes out every entry that
  matches.
* **Equality.** `same` ignores the order of entries, but neither the spelling of
  names nor the order of values.
-/

namespace LayeredFetch

/-- Header fields, each name with its values. -/
structure Headers where
  entries : List (String × List String)
deriving DecidableEq, Repr, Inhabited

namespace Headers

open Text (sameFold)

/-- No fields. -/
def empty : Headers := ⟨[]⟩

instance : EmptyCollection Headers := ⟨empty⟩

/-! ### Observers -/

/-- The values of the first entry that matches a name. -/
def get? (h : Headers) (name : String) : Option (List String) :=
  (h.entries.find? fun e => sameFold e.1 name).map Prod.snd

/-- The first value of the first entry that matches a name. -/
def first? (h : Headers) (name : String) : Option String := (h.get? name).bind List.head?

/-- Every value of every entry that matches a name, in order. -/
def all (h : Headers) (name : String) : List String :=
  (h.entries.filter fun e => sameFold e.1 name).flatMap Prod.snd

/-- Whether an entry matches a name. -/
def contains (h : Headers) (name : String) : Bool := (h.get? name).isSome

/-- The number of entries. -/
def size (h : Headers) : Nat := h.entries.length

/-- Whether there are no entries. -/
def isEmpty (h : Headers) : Bool := h.entries.isEmpty

/-- The fields as pairs of a name and one value, in order. -/
def pairs (h : Headers) : List (String × String) :=
  h.entries.flatMap fun (name, values) => values.map (name, ·)

/-- Equality as maps: each name, as spelled, has the same values in both. -/
def same (g h : Headers) : Bool :=
  g.size == h.size && g.entries.all fun (name, values) => h.entries.lookup name == some values

/-! ### Changes -/

/-- Takes out every entry that matches a name; gives the values taken out. -/
def remove (h : Headers) (name : String) : List String × Headers :=
  let (taken, kept) := h.entries.partition fun e => sameFold e.1 name
  (taken.flatMap Prod.snd, ⟨kept⟩)

/-- Gives a name a single value, in place of every entry that matches. -/
def insert (h : Headers) (name value : String) : Headers :=
  ⟨(h.remove name).2.entries ++ [(name, [value])]⟩

/-- Adds a value to the first of some entries that matches a name, or a new entry
after them. -/
def appendTo (name value : String) : List (String × List String) → List (String × List String)
  | [] => [(name, [value])]
  | (n, values) :: rest =>
      if sameFold n name then (n, values ++ [value]) :: rest
      else (n, values) :: appendTo name value rest

/-- Adds a value to the first entry that matches a name, or a new entry at the
end. -/
def append (h : Headers) (name value : String) : Headers := ⟨appendTo name value h.entries⟩

/-- Appends pairs of a name and a value, in order. -/
def appendPairs (h : Headers) (pairs : List (String × String)) : Headers :=
  pairs.foldl (fun h (name, value) => h.append name value) h

/-- The fields collected from pairs of a name and a value. -/
def ofPairs (pairs : List (String × String)) : Headers := empty.appendPairs pairs

/-! ### Operations as data -/

/-- An operation on header fields. -/
inductive Op where
  /-- Starts again without fields. -/
  | clear
  /-- Starts again with the fields collected from pairs. -/
  | collect (pairs : List (String × String))
  | insert (name value : String)
  | append (name value : String)
  | remove (name : String)
  | get (name : String)
  | first (name : String)
  | all (name : String)
  | contains (name : String)
  | isEmpty
  | size
  /-- Equality with the fields collected from pairs. -/
  | same (pairs : List (String × String))
deriving DecidableEq, Repr

/-- What an operation gives. -/
inductive Observation where
  | nothing
  | values (vs : List String)
  | values? (vs : Option (List String))
  | value? (v : Option String)
  | flag (b : Bool)
  | count (n : Nat)
deriving DecidableEq, Repr

/-- Performs an operation: what it gives, and the fields it leaves. -/
def perform (h : Headers) : Op → Observation × Headers
  | .clear => (.nothing, empty)
  | .collect pairs => (.nothing, ofPairs pairs)
  | .insert name value => (.nothing, h.insert name value)
  | .append name value => (.nothing, h.append name value)
  | .remove name => ((h.remove name).map .values id)
  | .get name => (.values? (h.get? name), h)
  | .first name => (.value? (h.first? name), h)
  | .all name => (.values (h.all name), h)
  | .contains name => (.flag (h.contains name), h)
  | .isEmpty => (.flag h.isEmpty, h)
  | .size => (.count h.size, h)
  | .same pairs => (.flag (h.same (ofPairs pairs)), h)

/-- The fields that a sequence of operations leaves. -/
def after (h : Headers) (ops : List Op) : Headers := ops.foldl (fun h op => (h.perform op).2) h

/-! ### The view after each change -/

theorem entries_remove (h : Headers) (name : String) :
    (h.remove name).2.entries = h.entries.filter fun e => !sameFold e.1 name := by
  simp [remove, List.partition_eq_filter_filter, Function.comp_def]

/-- What `remove` gives is what `all` showed. -/
theorem remove_fst (h : Headers) (name : String) : (h.remove name).1 = h.all name := by
  simp [remove, all, List.partition_eq_filter_filter]

/-- A name that is taken out has no values, and the other names keep theirs. -/
theorem all_remove (h : Headers) (name other : String) :
    (h.remove name).2.all other = if sameFold name other then [] else h.all other := by
  rw [all, entries_remove, List.filter_filter]
  split
  · next hno =>
      rw [List.filter_eq_nil_iff.2, List.flatMap_nil]
      intro e _
      rw [Text.sameFold_comm e.1 name, Text.sameFold_congr hno, Text.sameFold_comm other]
      simp
  · next hno =>
      rw [all]
      congr 1
      refine List.filter_congr fun e _ => ?_
      cases heo : sameFold e.1 other with
      | false => rfl
      | true =>
          rw [Text.sameFold_congr heo, Text.sameFold_comm, eq_false_of_ne_true hno]
          rfl

/-- A name that is put in has one value, and the other names keep theirs. -/
theorem all_insert (h : Headers) (name other value : String) :
    (h.insert name value).all other =
      if sameFold name other then [value] else h.all other := by
  have hrest := h.all_remove name other
  rw [all] at hrest
  rw [all, insert, List.filter_append, List.flatMap_append, hrest]
  split
  · next hno => simp [hno]
  · next hno => simp [hno]

/-! ### Taking out -/

variable {h : Headers} {name other value : String}

/-- What matches the name taken out makes no difference. -/
theorem remove_insert_self (heq : sameFold name other = true) :
    ((h.insert name value).remove other).2 = (h.remove other).2 := by
  have hentries :
      ((h.insert name value).remove other).2.entries = (h.remove other).2.entries := by
    rw [entries_remove, insert, entries_remove, entries_remove, List.filter_append,
      List.filter_filter]
    have hkeep : ∀ e : String × List String,
        (!sameFold e.1 other && !sameFold e.1 name) = !sameFold e.1 other := by
      intro e
      rw [Text.sameFold_comm e.1 name, Text.sameFold_congr heq, Text.sameFold_comm other,
        Bool.and_self]
    simp [hkeep, heq]
  exact congrArg Headers.mk hentries

/-- Other names may be taken out before or afterwards. -/
theorem remove_insert_of_ne (hne : sameFold name other = false) :
    ((h.insert name value).remove other).2 = (h.remove other).2.insert name value := by
  have hentries : ((h.insert name value).remove other).2.entries =
      ((h.remove other).2.insert name value).entries := by
    rw [entries_remove, insert, insert, entries_remove, entries_remove, entries_remove,
      List.filter_append, List.filter_filter, List.filter_filter]
    simp [hne, Bool.and_comm]
  exact congrArg Headers.mk hentries

/-- A name that is not there cannot be taken out. -/
theorem remove_of_not_contains (hno : h.contains name = false) : (h.remove name).2 = h := by
  have hentries : (h.remove name).2.entries = h.entries := by
    rw [entries_remove, List.filter_eq_self]
    intro e he
    simp only [contains, get?, Option.isSome_map, Option.isSome_eq_false_iff,
      Option.isNone_iff_eq_none, List.find?_eq_none] at hno
    simpa using hno e he
  exact congrArg Headers.mk hentries

/-- It has no values either. -/
theorem all_of_not_contains (hno : h.contains name = false) : h.all name = [] := by
  rw [← remove_of_not_contains hno, all_remove, if_pos (Text.sameFold_self name)]

end Headers

end LayeredFetch
