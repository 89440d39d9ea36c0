import LayeredFetch.Resource.Basic

/-!
Resources that can be revalidated.

A `Tagged` resource carried an entity tag, and is held with that tag and with the
URI it was fetched from. Each time one is made it gets a serial number of its own,
so two of them are the same *instance* when their serial numbers are equal, and
the smaller number was made earlier.

`Fetched` is what a fetch gives: a plain resource, or a tagged one.
-/

namespace LayeredFetch

/-- A resource with the entity tag it carried, and the URI it came from. -/
structure Tagged where
  serial : Nat
  uri : String
  etag : String
  resource : Resource
deriving Repr

/-- The outcome of a fetch. -/
inductive Fetched where
  | plain (resource : Resource)
  | tagged (t : Tagged)
deriving Repr

/-- A copy after some changes, a new instance with the same URI and entity tag. -/
def Tagged.rebuild (serial : Nat) (changes : List Resource.Change) (t : Tagged) : Tagged :=
  { t with serial, resource := t.resource.derive changes }

namespace Fetched

/-- The resource itself. -/
def resource : Fetched → Resource
  | plain r => r
  | tagged t => t.resource

/-- The tagged resource, if it is one. -/
def tagged? : Fetched → Option Tagged
  | plain _ => none
  | tagged t => some t

/-- A copy after some changes: plain if it was plain; a new instance with the same
URI and entity tag if it was tagged. -/
def rebuild (serial : Nat) (changes : List Resource.Change) : Fetched → Fetched
  | plain r => plain (r.derive changes)
  | tagged t => tagged (t.rebuild serial changes)

/-- The value as a tagged resource: the instance itself if it is one, a new
instance if it is plain and carries an entity tag, and nothing otherwise. -/
def tag? (serial : Nat) (uri : String) : Fetched → Option Tagged
  | tagged t => some t
  | plain r => r.etag?.map fun etag => ⟨serial, uri, etag, r⟩

/-- Whether tagging the value makes a new instance. -/
def isTaggable : Fetched → Bool
  | plain r => r.etag?.isSome
  | tagged _ => false

/-- The resource of a copy is the copy of the resource. -/
theorem resource_rebuild (serial : Nat) (changes : List Resource.Change) (f : Fetched) :
    (f.rebuild serial changes).resource = f.resource.derive changes := by
  cases f <;> rfl

end Fetched

end LayeredFetch
