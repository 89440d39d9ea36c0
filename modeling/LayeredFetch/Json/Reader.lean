import LayeredFetch.Json.Token

/-!
Reading JSON texts.

A machine with a stack builds the value from the tokens: the stack holds the
arrays and objects that are open, innermost first, and `Expected` says what may
come next. At most `maxDepth` of them may be open at once.
-/

namespace LayeredFetch.Json

/-- An array or object that is open. The items are kept in reverse. -/
inductive Open where
  | array (items : List Json)
  /-- With the key whose value is to come. -/
  | object (members : List (String × Json)) (key : String)
deriving Repr

/-- What the next token must be. -/
inductive Expected where
  | value
  /-- The first item of an array, or its end. -/
  | itemOrEnd
  /-- The first key of an object, or its end. -/
  | keyOrEnd (members : List (String × Json))
  | key (members : List (String × Json))
  | colon (members : List (String × Json)) (key : String)
  /-- A comma or the end, after a value inside an array or object. -/
  | commaOrEnd
  /-- Nothing, the text being complete. -/
  | done (value : Json)
deriving Repr

/-- The state of the reader. -/
structure Reader where
  enclosing : List Open
  expected : Expected
deriving Repr

/-- The greatest number of arrays and objects around a place in a text. -/
def maxDepth : Nat := 127

namespace Reader

/-- Puts a complete value where it belongs. -/
def place (value : Json) : List Open → Reader
  | [] => ⟨[], .done value⟩
  | .array items :: outer => ⟨.array (value :: items) :: outer, .commaOrEnd⟩
  | .object members key :: outer =>
      ⟨.object (insertMember key value members) key :: outer, .commaOrEnd⟩

/-- The beginning of a value. -/
def readValue (enclosing : List Open) : Token → Option Reader
  | .scalar value => some (place value enclosing)
  | .text s => some (place (.str s) enclosing)
  | .mark .openArray =>
      if enclosing.length < maxDepth then some ⟨.array [] :: enclosing, .itemOrEnd⟩ else none
  | .mark .openObject =>
      if enclosing.length < maxDepth then some ⟨.object [] "" :: enclosing, .keyOrEnd []⟩
      else none
  | .mark _ => none

/-- Reads a token. -/
def step (r : Reader) (token : Token) : Option Reader :=
  match r.expected, r.enclosing, token with
  | .value, enclosing, token => readValue enclosing token
  | .itemOrEnd, .array items :: outer, .mark .closeArray => some (place (.arr items.reverse) outer)
  | .itemOrEnd, enclosing, token => readValue enclosing token
  | .keyOrEnd members, .object _ _ :: outer, .mark .closeObject =>
      some (place (.obj members) outer)
  | .keyOrEnd members, enclosing, .text key => some ⟨enclosing, .colon members key⟩
  | .key members, enclosing, .text key => some ⟨enclosing, .colon members key⟩
  | .colon members key, .object _ _ :: outer, .mark .colon =>
      some ⟨.object members key :: outer, .value⟩
  | .commaOrEnd, .array items :: outer, .mark .comma => some ⟨.array items :: outer, .value⟩
  | .commaOrEnd, .array items :: outer, .mark .closeArray => some (place (.arr items.reverse) outer)
  | .commaOrEnd, .object members key :: outer, .mark .comma =>
      some ⟨.object members key :: outer, .key members⟩
  | .commaOrEnd, .object members _ :: outer, .mark .closeObject =>
      some (place (.obj members) outer)
  | _, _, _ => none

/-- The value, if the text is complete. -/
def value? (r : Reader) : Option Json :=
  match r.expected with
  | .done value => some value
  | _ => none

end Reader

/-- The value of a sequence of tokens. -/
def ofTokens? (tokens : List Token) : Option Json := do
  (← tokens.foldlM Reader.step ⟨[], .value⟩).value?

/-- The value of a text. -/
def read? (s : String) : Option Json := do ofTokens? (← Token.ofChars? s.toList)

end LayeredFetch.Json
