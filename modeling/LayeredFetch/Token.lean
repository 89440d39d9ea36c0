import LayeredFetch.Text.Blank

/-!
Access tokens and the `Authorization` values that present them.

A blank token stands for no credentials: it presents nothing.
-/

namespace LayeredFetch

/-- The keyword before a token. -/
inductive AuthScheme where
  | token
  | bearer
deriving DecidableEq, Repr

/-- The keyword as it is sent. -/
def AuthScheme.keyword : AuthScheme → String
  | token => "token"
  | bearer => "Bearer"

/-- An access token. -/
structure Token where
  scheme : AuthScheme
  value : String
deriving DecidableEq, Repr

namespace Token

/-- Whether the token holds nothing but white space. -/
def isBlank (t : Token) : Bool := (Text.trim t.value.toList).isEmpty

/-- The `Authorization` value, if the token is not blank. -/
def authorization? (t : Token) : Option String :=
  if t.isBlank then none else some (t.scheme.keyword ++ " " ++ t.value)

/-- A text for logs, in which the value does not appear. -/
def masked (t : Token) : String := s!"AccessToken({t.scheme.keyword}, *****)"

end Token

end LayeredFetch
