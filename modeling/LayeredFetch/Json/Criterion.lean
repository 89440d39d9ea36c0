import LayeredFetch.Json.Basic

/-!
Criteria by which an entry of a list is chosen.
-/

namespace LayeredFetch.Json

/-- What is asked of an entry; what is not given may be anything. -/
structure Criterion where
  /-- The member asked about, in place of the entry itself. -/
  key : Option String
  equals : Option Json

namespace Criterion

/-- What a criterion is about in an entry: null where there is no such member. -/
def subject (c : Criterion) (entry : Json) : Json :=
  match c.key with
  | none => entry
  | some key => (entry.member? key).getD .null

/-- Whether an entry is as asked. -/
def accepts (c : Criterion) (entry : Json) : Bool := c.equals.all (·.same (c.subject entry))

end Criterion

end LayeredFetch.Json
