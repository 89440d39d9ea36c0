import LayeredFetch.Config.Error
import LayeredFetch.Json.Basic
import LayeredFetch.Uri

/-!
Base URLs: the roots under which an interface lives.

A base URL is a scheme of ASCII letters, `://`, a host, and a rest that is empty
or begins with one of `: / ? #`. White space around a text, and then slashes at
its end, do not belong to it.
-/

namespace LayeredFetch

/-- A base URL in its three parts. -/
structure BaseUrl where
  scheme : String
  host : String
  rest : String
deriving DecidableEq, Repr

namespace BaseUrl

/-- The characters that end a host. -/
def endsHost (c : Char) : Bool := c == ':' || c == '/' || c == '?' || c == '#'

/-- A text without the white space around it and without slashes at its end. -/
def normalize (s : String) : List Char := Text.stripEnd (· == '/') (Text.trim s.toList)

/-- The base URL written by a text. -/
def parse (s : String) : Except ConfigError BaseUrl :=
  let text := normalize s
  match Uri.split? text with
  | none => .error (.invalidBaseUrl (String.ofList text))
  | some (scheme, after) =>
      let host := after.takeWhile (!endsHost ·)
      let rest := after.dropWhile (!endsHost ·)
      if host.isEmpty || host.any Text.isBlank then .error (.invalidBaseUrl (String.ofList text))
      else .ok ⟨String.ofList scheme, String.ofList host, String.ofList rest⟩

/-- The text of a base URL. -/
def text (b : BaseUrl) : String := b.scheme ++ "://" ++ b.host ++ b.rest

/-- The URI of a path under a base URL, with a single slash between them. -/
def join (b : BaseUrl) (path : String) : String :=
  b.text ++ "/" ++ String.ofList (path.toList.dropWhile (· == '/'))

/-! ### As JSON -/

/-- Why a JSON value is not a base URL. -/
inductive DecodeError where
  | notText
  | invalid (e : ConfigError)
deriving DecidableEq, Repr

/-- A base URL as a JSON value. -/
def toJson (b : BaseUrl) : Json := .str b.text

/-- The base URL written by a JSON value. -/
def ofJson : Json → Except DecodeError BaseUrl
  | .str s => (parse s).mapError .invalid
  | _ => .error .notText

end BaseUrl

end LayeredFetch
