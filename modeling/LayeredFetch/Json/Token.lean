import LayeredFetch.Json.Number

/-!
The tokens of JSON texts.

The scanner is a machine that reads one character at a time: `Scan.step` gives
the tokens completed by a character and the next state, and `Token.ofChars?` runs
it over a text. A number or a word extends as far as its characters do, which is
right because no value may touch the next one.

Inside a string, `\u` escapes are UTF-16 units. They are kept apart from the
characters written directly until the string ends, and `joinUnits` then joins
each pair of surrogates; one that stands alone makes the string ill-formed.
-/

namespace LayeredFetch.Json

/-- A punctuation mark. -/
inductive Mark where
  | openArray | closeArray | openObject | closeObject | comma | colon
deriving DecidableEq, Repr

/-- A token. -/
inductive Token where
  | mark (m : Mark)
  | text (s : String)
  /-- A number, a truth value or null. -/
  | scalar (value : Json)
deriving Repr

/-! ### Strings -/

/-- A constituent of a string: a character, or an escaped UTF-16 unit. -/
inductive Unit16 where
  | char (c : Char)
  | escaped (unit : Nat)
deriving DecidableEq, Repr

/-- The characters of a string, surrogates joined in pairs. -/
def joinUnits : List Unit16 → Option (List Char)
  | [] => some []
  | .char c :: rest => (joinUnits rest).map (c :: ·)
  | .escaped high :: .escaped low :: rest =>
      if 0xD800 ≤ high ∧ high < 0xDC00 then
        if 0xDC00 ≤ low ∧ low < 0xE000 then
          let code := 0x10000 + (high - 0xD800) * 0x400 + (low - 0xDC00)
          (joinUnits rest).map (Char.ofNat code :: ·)
        else none
      else if 0xDC00 ≤ high ∧ high < 0xE000 then none
      else (joinUnits (.escaped low :: rest)).map (Char.ofNat high :: ·)
  | .escaped unit :: rest =>
      if 0xD800 ≤ unit ∧ unit < 0xE000 then none
      else (joinUnits rest).map (Char.ofNat unit :: ·)

/-- The character of an escape of one letter. -/
def escapedChar? : Char → Option Char
  | '"' => some '"'
  | '\\' => some '\\'
  | '/' => some '/'
  | 'b' => some '\x08'
  | 'f' => some '\x0c'
  | 'n' => some '\n'
  | 'r' => some '\r'
  | 't' => some '\t'
  | _ => none

/-- The value of a hexadecimal digit. -/
def hexValue? (c : Char) : Option Nat :=
  if c.isDigit then some (c.toNat - '0'.toNat)
  else if 'a' ≤ c ∧ c ≤ 'f' then some (c.toNat - 'a'.toNat + 10)
  else if 'A' ≤ c ∧ c ≤ 'F' then some (c.toNat - 'A'.toNat + 10)
  else none

/-! ### The scanner -/

/-- Where the scanner is. What has been read of a number, a word or a string is
kept in reverse. -/
inductive Scan where
  | between
  | number (read : List Char)
  | word (read : List Char)
  | string (read : List Unit16)
  /-- After a backslash. -/
  | escape (read : List Unit16)
  /-- After `\u`, with hexadecimal digits to come. -/
  | unicode (read : List Unit16) (unit : Nat) (missing : Nat)
deriving Repr

/-- The blanks of JSON. -/
def isSpace (c : Char) : Bool := c == ' ' || c == '\t' || c == '\n' || c == '\r'

/-- The characters that number literals are made of. -/
def isNumeric (c : Char) : Bool :=
  c.isDigit || c == '-' || c == '+' || c == '.' || c == 'e' || c == 'E'

/-- The punctuation mark written by a character. -/
def Mark.ofChar? : Char → Option Mark
  | '[' => some .openArray
  | ']' => some .closeArray
  | '\x7b' => some .openObject
  | '\x7d' => some .closeObject
  | ',' => some .comma
  | ':' => some .colon
  | _ => none

/-- The value of a word. -/
def word? (cs : List Char) : Option Json :=
  if cs = "null".toList then some .null
  else if cs = "true".toList then some (.bool true)
  else if cs = "false".toList then some (.bool false)
  else none

namespace Scan

/-- A character that begins something. -/
def start (c : Char) : Option (List Token × Scan) :=
  if isSpace c then some ([], between)
  else if c == '"' then some ([], string [])
  else if c.isDigit || c == '-' then some ([], number [c])
  else if c.isAlpha then some ([], word [c])
  else (Mark.ofChar? c).map fun m => ([.mark m], between)

/-- The token that is complete when a number or a word ends. -/
def finish? : Scan → Option (List Token)
  | between => some []
  | number read => (number? read.reverse).map fun v => [.scalar v]
  | word read => (word? read.reverse).map fun v => [.scalar v]
  | _ => none

/-- Ends a number or a word before a character that begins something. -/
def endBefore (s : Scan) (c : Char) : Option (List Token × Scan) := do
  let ended ← s.finish?
  let (started, next) ← start c
  return (ended ++ started, next)

/-- Reads a character: gives the tokens completed by it, and the next state. -/
def step (s : Scan) (c : Char) : Option (List Token × Scan) :=
  match s with
  | between => start c
  | number read => if isNumeric c then some ([], number (c :: read)) else s.endBefore c
  | word read => if c.isAlpha then some ([], word (c :: read)) else s.endBefore c
  | string read =>
      if c == '"' then (joinUnits read.reverse).map fun cs => ([.text (String.ofList cs)], between)
      else if c == '\\' then some ([], escape read)
      else if c.toNat < 0x20 then none
      else some ([], string (.char c :: read))
  | escape read =>
      if c == 'u' then some ([], unicode read 0 4)
      else (escapedChar? c).map fun e => ([], string (.char e :: read))
  | unicode read unit missing => do
      let unit := 16 * unit + (← hexValue? c)
      return ([], if missing ≤ 1 then string (.escaped unit :: read)
        else unicode read unit (missing - 1))

/-- The tokens of the remaining characters. -/
def run (s : Scan) : List Char → Option (List Token)
  | [] => s.finish?
  | c :: cs => do
      let (tokens, next) ← s.step c
      return tokens ++ (← next.run cs)

end Scan

/-- The tokens of a text, if it is made of tokens and blanks. -/
def Token.ofChars? (cs : List Char) : Option (List Token) := Scan.between.run cs

end LayeredFetch.Json
