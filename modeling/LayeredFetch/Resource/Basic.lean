import LayeredFetch.Headers
import LayeredFetch.Json.Basic

/-!
Resources: the outcome of one response.

A resource is a status code, header fields and a JSON body. It is a value; a
changed copy is derived from it by a list of `Change`s, applied in order.
-/

namespace LayeredFetch

/-- The outcome of one response. -/
structure Resource where
  status : Nat
  headers : Headers
  body : Json
deriving Repr, Inhabited

namespace Resource

/-- Whether the status says that the request succeeded. -/
def isSuccess (r : Resource) : Bool := decide (200 ≤ r.status) && decide (r.status ≤ 299)

/-- Whether the status says that the requester's copy is still current. -/
def isNotModified (r : Resource) : Bool := r.status == 304

/-- The entity tag: the first value of the first `ETag` field. -/
def etag? (r : Resource) : Option String := r.headers.first? "ETag"

/-- Equality of status, fields and body. -/
def same (a b : Resource) : Bool :=
  a.status == b.status && a.headers.same b.headers && a.body.same b.body

/-! ### Derived resources -/

/-- A change made to a copy. -/
inductive Change where
  | status (code : Nat)
  | body (value : Json)
  | headers (ops : List Headers.Op)
deriving Repr

/-- The resource after one change. -/
def change (r : Resource) : Change → Resource
  | .status code => { r with status := code }
  | .body value => { r with body := value }
  | .headers ops => { r with headers := r.headers.after ops }

/-- The copy of a resource after some changes. -/
def derive (r : Resource) (changes : List Change) : Resource := changes.foldl change r

theorem derive_append (r : Resource) (cs ds : List Change) :
    r.derive (cs ++ ds) = (r.derive cs).derive ds := List.foldl_append

end Resource

end LayeredFetch
