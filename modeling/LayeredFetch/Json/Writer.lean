import LayeredFetch.Binary64.Shortest
import LayeredFetch.Json.Basic

/-!
Writing JSON values compactly.

There are no blanks between tokens. In strings only the quote, the backslash and
the control characters below U+0020 are escaped. Binary numbers are written with
the fewest digits, always with a point or an exponent, so that reading them back
never gives an integer.
-/

namespace LayeredFetch.Json

/-- Binary numbers are positional from `0.0001` up to, and not including,
`10 ^ 16`; an exponent has a sign and at least two digits. -/
def binaryLayout : Binary64.Layout := ⟨-4, 16, 'e', 2⟩

/-- A hexadecimal digit, in lower case. -/
def hexDigit (n : Nat) : Char := (Nat.digitChar n)

/-- A character as written inside a string. -/
def escapeChar (c : Char) : List Char :=
  match c with
  | '"' => ['\\', '"']
  | '\\' => ['\\', '\\']
  | '\x08' => ['\\', 'b']
  | '\x0c' => ['\\', 'f']
  | '\n' => ['\\', 'n']
  | '\r' => ['\\', 'r']
  | '\t' => ['\\', 't']
  | c =>
      if c.toNat < 0x20 then ['\\', 'u', '0', '0', hexDigit (c.toNat / 16), hexDigit (c.toNat % 16)]
      else [c]

/-- A text in quotes. -/
def quote (s : String) : String :=
  String.ofList ('"' :: s.toList.flatMap escapeChar ++ ['"'])

mutual

/-- The text of a value. -/
def write : Json → String
  | null => "null"
  | bool b => if b then "true" else "false"
  | int n => toString n
  | binary x => binaryLayout.write x
  | str s => quote s
  | arr items => "[" ++ writeItems items ++ "]"
  | obj members => "\x7b" ++ writeMembers members ++ "\x7d"

/-- Items with commas between them. -/
def writeItems : List Json → String
  | [] => ""
  | [item] => item.write
  | item :: rest => item.write ++ "," ++ writeItems rest

/-- Members with commas between them. -/
def writeMembers : List (String × Json) → String
  | [] => ""
  | [(key, value)] => quote key ++ ":" ++ value.write
  | (key, value) :: rest => quote key ++ ":" ++ value.write ++ "," ++ writeMembers rest

end

end LayeredFetch.Json
