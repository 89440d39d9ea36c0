import LayeredFetch.Failure

/-!
Events: what layers, walks and the client report while they work.
-/

namespace LayeredFetch

/-- How much an event matters. -/
inductive Level where
  | debug
  | warn
deriving DecidableEq, Repr

/-- The level as it is written. -/
def Level.name : Level → String
  | debug => "DEBUG"
  | warn => "WARN"

/-- Something worth reporting. -/
inductive Event where
  /-- A cached copy is current. -/
  | notModified (uri etag : String)
  /-- A resource goes into a cache. -/
  | caching (uri etag : String)
  /-- A page is about to be fetched; pages count from one. -/
  | fetchingPage (number : Nat) (uri : String)
  /-- A link to the next page is not absolute. -/
  | relativeLink (target uri : String)
  /-- A search ends early, after so many pages. -/
  | walkFailed (pages : Nat) (error : PagingError)
  /-- A response field is not readable. -/
  | skippedField (name : String)
  /-- A response came. -/
  | answered (method : Method) (uri : String) (status : Nat)
deriving DecidableEq, Repr

namespace Event

/-- The level of an event. -/
def level : Event → Level
  | walkFailed _ _ => .warn
  | _ => .debug

/-- The event in words. -/
def message : Event → String
  | notModified uri etag =>
      s!"Resource [{uri}] not modified (ETag {etag}), serving cached copy"
  | caching uri etag => s!"Caching resource [{uri}] with ETag {etag}"
  | fetchingPage number uri => s!"Fetching page {number} from [{uri}]"
  | relativeLink target uri => s!"Ignoring relative next link [{target}] on [{uri}]"
  | walkFailed pages error =>
      s!"Something went wrong while walking pages after {pages} page(s): " ++
        s!"[{error.message}]."
  | skippedField name => s!"Skipping non-ASCII value of response header [{name}]"
  | answered method uri status => s!"{method.name} [{uri}] answered {status}"

end Event

end LayeredFetch
