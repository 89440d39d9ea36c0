import LayeredFetch.Config.BaseUrl
import LayeredFetch.Text.Offsets

/-!
Base URLs as they are kept: the whole text, with the offsets of the scheme and the host in it.

`Layout.scan` reads a text like `parse`, but finds each part by its offsets, and cuts it out of
the text. There is no outcome at all if an offset is not one at which a text may be cut.
-/

namespace LayeredFetch.BaseUrl

/-- A base URL as its text, with offsets in octets. -/
structure Layout where
  url : String
  schemeEnd : Nat
  hostStart : Nat
  hostEnd : Nat
deriving DecidableEq, Repr

namespace Layout

/-- The layout of the base URL written by a text. -/
def scan (s : String) : Option (Except ConfigError Layout) :=
  let url := String.ofList (normalize s)
  let refused : Except ConfigError Layout := .error (.invalidBaseUrl url)
  match Text.find? Uri.authorityMark url with
  | none => some refused
  | some schemeEnd => do
      let scheme ← Text.slice? url 0 schemeEnd
      if scheme.isEmpty || !scheme.toList.all Char.isAlpha then
        return refused
      let hostStart := schemeEnd + 3
      let remainder ← Text.slice? url hostStart url.utf8ByteSize
      let hostEnd := (Text.findChar? endsHost remainder).elim url.utf8ByteSize (hostStart + ·)
      if hostEnd = hostStart then
        return refused
      let host ← Text.slice? url hostStart hostEnd
      if host.toList.any Text.isBlank then
        return refused
      return .ok ⟨url, schemeEnd, hostStart, hostEnd⟩

/-- The scheme, cut out of the text. -/
def scheme? (l : Layout) : Option String := Text.slice? l.url 0 l.schemeEnd

/-- The host, cut out of the text. -/
def host? (l : Layout) : Option String := Text.slice? l.url l.hostStart l.hostEnd

/-- The URI of a path, with a single slash between the text and it. -/
def join (l : Layout) (path : String) : String :=
  l.url ++ "/" ++ String.ofList (path.toList.dropWhile (· == '/'))

end Layout

/-- The layout of a base URL with these parts. -/
def layout (b : BaseUrl) : Layout where
  url := b.text
  schemeEnd := b.scheme.utf8ByteSize
  hostStart := b.scheme.utf8ByteSize + 3
  hostEnd := b.scheme.utf8ByteSize + 3 + b.host.utf8ByteSize

end LayeredFetch.BaseUrl
