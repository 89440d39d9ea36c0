import LayeredFetch.Links
import LayeredFetch.Stack

/-!
Walks over the pages of a list.

A walk holds the URI of the next page. `pull` fetches that page and takes from its
`Link` fields where to go on; after an error, or a page without an absolute link
to a next one, the walk is over. `find` pulls pages until one has an entry that is
wanted.
-/

namespace LayeredFetch

/-- A walk: where it goes on, and the pages it has given so far. -/
structure Walk where
  next : Option String
  pages : Nat
deriving DecidableEq, Repr

/-- What a search over the pages of a walk came to. -/
structure Search where
  entry : Option Json
  /-- The entries looked at, in order. -/
  examined : List Json
  /-- False if the search stopped at its limit of pages. -/
  complete : Bool

namespace Walk

variable {σ : Type}

/-- A walk that begins at a URI. -/
def start (uri : String) : Walk := ⟨some uri, 0⟩

/-- The walk that is over, after so many pages. -/
def ended (pages : Nat) : Walk := ⟨none, pages⟩

/-- Whether there is a page to be fetched. -/
def hasNext (walk : Walk) : Bool := walk.next.isSome

/-- The walk after one more page, which came from `uri` with these fields. -/
def advance (walk : Walk) (uri : String) (headers : Headers) (w : World σ) : Walk × World σ :=
  match (Links.ofHeaders headers).next with
  | none => (ended (walk.pages + 1), w)
  | some target =>
      if Uri.isAbsolute target then (⟨some target, walk.pages + 1⟩, w)
      else (ended (walk.pages + 1), w.report (.relativeLink target uri))

/-- Fetches the next page; nothing if the walk is over. -/
def pull (t : Transport σ) (s : Stack) (walk : Walk) (w : World σ) :
    Except PagingError (Option Fetched) × Walk × World σ :=
  match walk.next with
  | none => (.ok none, walk, w)
  | some uri =>
      let ended := ended walk.pages
      match s.call t (.get uri .empty) (w.report (.fetchingPage (walk.pages + 1) uri)) with
      | (.error e, w) => (.error (.fetch e), ended, w)
      | (.ok page, w) =>
          if !page.resource.isSuccess then
            (.error (.unexpectedStatus uri page.resource.status), ended, w)
          else if page.resource.body.items?.isNone then (.error (.notAList uri), ended, w)
          else (.ok (some page), walk.advance uri page.resource.headers w)

/-- The entries of a page. -/
def entries (page : Fetched) : List Json := page.resource.body.items?.getD []

/-- Looks at entries up to the first that is wanted: that entry, and those looked
at. -/
def examine (wanted : Json → Bool) : List Json → Option Json × List Json
  | [] => (none, [])
  | e :: es =>
      if wanted e then (some e, [e])
      else
        let (found, seen) := examine wanted es
        (found, e :: seen)

/-- Searches the pages still to come, at most `limit` of them, for an entry that
is wanted. An error ends the search without one. -/
def find (t : Transport σ) (s : Stack) (wanted : Json → Bool) :
    (limit : Nat) → Walk → World σ → Search × World σ
  | 0, _, w => (⟨none, [], false⟩, w)
  | limit + 1, walk, w =>
      match walk.pull t s w with
      | (.error e, walk, w) => (⟨none, [], true⟩, w.report (.walkFailed walk.pages e))
      | (.ok none, _, w) => (⟨none, [], true⟩, w)
      | (.ok (some page), walk, w) =>
          match examine wanted (entries page) with
          | (some entry, seen) => (⟨some entry, seen, true⟩, w)
          | (none, seen) =>
              let (later, w) := find t s wanted limit walk w
              ({ later with examined := seen ++ later.examined }, w)

end Walk

end LayeredFetch
