import LayeredFetch.Binary64.Basic

/-!
JSON values.

Integers of 64 bits are kept exactly and apart from binary numbers, so `1` and
`1.0` are different values. The members of an object are kept in increasing order
of their keys, each key once; `insertMember` keeps that order.

* **Equality.** `Json.same` compares binary numbers by value, so it identifies
  the two zeros; on everything else it is identity.
-/

namespace LayeredFetch

/-- A JSON value. -/
inductive Json where
  | null
  | bool (b : Bool)
  | int (n : Int)
  | binary (x : Binary64)
  | str (s : String)
  | arr (items : List Json)
  | obj (members : List (String × Json))
deriving Repr, Inhabited

namespace Json

/-! ### Objects -/

/-- The members with a value under a key, in place of what was there. -/
def insertMember (key : String) (value : Json) : List (String × Json) → List (String × Json)
  | [] => [(key, value)]
  | (k, v) :: rest =>
      if key < k then (key, value) :: (k, v) :: rest
      else if key = k then (key, value) :: rest
      else (k, v) :: insertMember key value rest

/-- The object with the given members; of two under one key the later counts. -/
def ofMembers (members : List (String × Json)) : Json :=
  obj (members.foldl (fun ms (key, value) => insertMember key value ms) [])

/-- The value under a key, if this is an object that has the key. -/
def member? : Json → String → Option Json
  | obj members, key => members.lookup key
  | _, _ => none

/-- The keys in increasing order, if this is an object. -/
def keys? : Json → Option (List String)
  | obj members => some (members.map Prod.fst)
  | _ => none

/-- The items, if this is an array. -/
def items? : Json → Option (List Json)
  | arr items => some items
  | _ => none

/-- The text, if this is one. -/
def text? : Json → Option String
  | str s => some s
  | _ => none

/-! ### Equality -/

mutual

/-- Equality of values: binary numbers compare by value, and no integer equals a
binary number. -/
def same : Json → Json → Bool
  | null, null => true
  | bool a, bool b => a == b
  | int m, int n => m == n
  | binary x, binary y => x.same y
  | str s, str t => s == t
  | arr as, arr bs => sameItems as bs
  | obj as, obj bs => sameMembers as bs
  | _, _ => false

/-- Equality of arrays, item by item. -/
def sameItems : List Json → List Json → Bool
  | [], [] => true
  | a :: as, b :: bs => a.same b && sameItems as bs
  | _, _ => false

/-- Equality of objects, member by member in the order of the keys. -/
def sameMembers : List (String × Json) → List (String × Json) → Bool
  | [], [] => true
  | (k, a) :: as, (l, b) :: bs => k == l && a.same b && sameMembers as bs
  | _, _ => false

end

end Json

end LayeredFetch
