import LayeredFetch.Config.BaseUrl
import LayeredFetch.Config.Provider

/-!
Configurations: which provider to talk to, where it lives, and how to introduce
oneself.
-/

namespace LayeredFetch

/-- A complete configuration. -/
structure Config where
  provider : Provider
  baseUrl : BaseUrl
  /-- What comes first in the `User-Agent` field. -/
  product : Option String
deriving DecidableEq, Repr

namespace Config

/-- A configuration from its parts. The provider has to be given; the base URL is
the provider's own if none is given. -/
def build (provider : Option Provider) (baseUrl : Option BaseUrl) (product : Option String) :
    Except ConfigError Config :=
  match provider with
  | none => .error (.missingField "provider")
  | some provider =>
      match baseUrl with
      | some baseUrl => .ok ⟨provider, baseUrl, product⟩
      | none => do return ⟨provider, ← BaseUrl.parse provider.defaultBaseUrl, product⟩

/-- The settings of a configuration, as texts. -/
structure Settings where
  provider : Option String
  baseUrl : Option String
  product : Option String
deriving DecidableEq, Repr

/-- The configuration of some settings. The first fault counts: in the provider,
then in the base URL, then that there is no provider. -/
def Settings.resolve (s : Settings) : Except ConfigError Config := do
  let provider ← s.provider.mapM Provider.parse
  let baseUrl ← s.baseUrl.mapM BaseUrl.parse
  Config.build provider baseUrl s.product

/-- The URI of a path. -/
def uri (c : Config) (path : String) : String := c.baseUrl.join path

end Config

end LayeredFetch
