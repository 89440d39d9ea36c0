import LayeredFetch.Config.Error
import LayeredFetch.Json.Basic
import LayeredFetch.Text.Fold
import LayeredFetch.Token

/-!
The supported code-hosting providers and their conventions.
-/

namespace LayeredFetch

/-- A code-hosting provider. -/
inductive Provider where
  | github
  | gitlab
deriving DecidableEq, Repr

namespace Provider

/-- The name in lower case. -/
def name : Provider → String
  | github => "github"
  | gitlab => "gitlab"

/-- The root of the public interface. -/
def defaultBaseUrl : Provider → String
  | github => "https://api.github.com"
  | gitlab => "https://gitlab.com/api/v4"

/-- The media type that the interface is asked for. -/
def accept : Provider → String
  | github => "application/vnd.github.v3+json"
  | gitlab => "application/json"

/-- How access tokens are presented. -/
def authScheme : Provider → AuthScheme
  | github => .token
  | gitlab => .bearer

/-- The provider with exactly this name. -/
def ofName? (s : String) : Option Provider := [github, gitlab].find? (·.name == s)

/-- The provider named by a text, in any ASCII case and with white space around
it. -/
def parse (s : String) : Except ConfigError Provider :=
  let trimmed := String.ofList (Text.trim s.toList)
  match ofName? (Text.lowered trimmed) with
  | some p => .ok p
  | none => .error (.unknownProvider s)

/-- A token presented as the provider expects. -/
def token (p : Provider) (value : String) : Token := ⟨p.authScheme, value⟩

/-! ### As JSON -/

/-- A provider as a JSON value. -/
def toJson (p : Provider) : Json := .str p.name

/-- The provider written by a JSON value: its name, or an object with its name as
the only key and null under it. -/
def ofJson? : Json → Option Provider
  | .str s => ofName? s
  | .obj [(key, .null)] => ofName? key
  | _ => none

end Provider

end LayeredFetch
