import LayeredFetch.Request

/-!
What can go wrong with a fetch, and with a walk over pages.

A status code is never an error of a fetch: whatever was answered is a resource.
-/

namespace LayeredFetch

/-- Why a fetch gave no resource. -/
inductive FetchError where
  /-- The request is not valid. -/
  | invalid (e : RequestError)
  /-- No answer came. -/
  | network (detail : String)
deriving DecidableEq, Repr

/-- The error in words. -/
def FetchError.message : FetchError → String
  | invalid e => e.message
  | network detail => s!"Network error: {detail}"

/-- Why a walk over pages ended early. -/
inductive PagingError where
  | fetch (e : FetchError)
  | unexpectedStatus (uri : String) (status : Nat)
  | notAList (uri : String)
deriving DecidableEq, Repr

/-- The error in words. -/
def PagingError.message : PagingError → String
  | fetch e => e.message
  | unexpectedStatus uri status => s!"Unexpected status {status} when fetching page [{uri}]."
  | notAList uri => s!"Page [{uri}] is not a JSON array; paging requires a list resource."

end LayeredFetch
