/-!
What can be wrong with a configuration.
-/

namespace LayeredFetch

/-- Why a configuration is refused. -/
inductive ConfigError where
  | invalidBaseUrl (url : String)
  | unknownProvider (name : String)
  | missingField (field : String)
deriving DecidableEq, Repr

/-- The error in words. -/
def ConfigError.message : ConfigError → String
  | invalidBaseUrl url =>
      s!"Invalid base URL '{url}'. Please provide an absolute URL with scheme " ++
        "(e.g., 'https://api.github.com')."
  | unknownProvider name => s!"Unknown provider '{name}'. Expected 'github' or 'gitlab'."
  | missingField field =>
      s!"Missing required field: '{field}'. " ++
        "This field must be set before building the configuration."

end LayeredFetch
