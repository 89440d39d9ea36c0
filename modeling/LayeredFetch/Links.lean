import LayeredFetch.Headers
import LayeredFetch.Text.Pieces

/-!
Links between the pages of a list, as announced in `Link` fields.

A value is a list of segments between commas, and a segment a list of pieces
between semicolons. The first piece of a segment holds the target between `<` and
`>`; the first later piece of the form `rel = words` names its relations.
Segments without a target or without such a piece announce nothing.

For each relation the first target announced counts, within one value and over
several.
-/

namespace LayeredFetch

/-- How a page lies to the present one. -/
inductive Relation where
  | next | prev | first | last
deriving DecidableEq, Repr

/-- The relation meant by a word, in any ASCII case. -/
def Relation.ofWord? (word : List Char) : Option Relation :=
  match String.ofList (word.map Char.toLower) with
  | "next" => some next
  | "prev" | "previous" => some prev
  | "first" => some first
  | "last" => some last
  | _ => none

/-- A target, with the relations announced for it. -/
structure Link where
  url : String
  relations : List Relation
deriving DecidableEq, Repr

namespace Link

/-- The text between `<` and `>`, if that is all there is, and it is not empty. -/
def target? : List Char → Option (List Char)
  | '<' :: rest =>
      let url := rest.dropLast
      if rest.getLast? = some '>' ∧ url ≠ [] then some url else none
  | _ => none

/-- The value of a piece `rel = value`, without white space and then quotes around
it. -/
def relValue? (piece : List Char) : Option (List Char) :=
  match Text.splitOnce ['='] piece with
  | some (key, value) =>
      if (Text.trim key).map Char.toLower = "rel".toList then
        some (Text.stripBoth (· == '"') (Text.trim value))
      else none
  | none => none

/-- The link announced by a segment. -/
def ofSegment? (segment : List Char) : Option Link := do
  let (first, later) := Text.cut (· == ';') segment
  let url ← target? (Text.trim first)
  let words := ((later.map Text.trim).findSome? relValue?).elim [] Text.words
  return ⟨String.ofList url, words.filterMap Relation.ofWord?⟩

/-- The links announced by a value. -/
def ofValue (value : String) : List Link :=
  (Text.pieces (· == ',') value.toList).filterMap ofSegment?

end Link

/-- The target of each relation, if one is announced. -/
structure Links where
  next : Option String
  prev : Option String
  first : Option String
  last : Option String
deriving DecidableEq, Repr

namespace Links

/-- No targets. -/
def empty : Links := ⟨none, none, none, none⟩

/-- The target of a relation. -/
def target? (l : Links) : Relation → Option String
  | .next => l.next
  | .prev => l.prev
  | .first => l.first
  | .last => l.last

/-- Gives a relation a target, unless it has one. -/
def record (url : String) (l : Links) : Relation → Links
  | .next => { l with next := l.next <|> some url }
  | .prev => { l with prev := l.prev <|> some url }
  | .first => { l with first := l.first <|> some url }
  | .last => { l with last := l.last <|> some url }

/-- Records the target of a link for each of its relations. -/
def add (l : Links) (link : Link) : Links := link.relations.foldl (record link.url) l

/-- The targets announced by links, in order. -/
def ofLinks (links : List Link) : Links := links.foldl add empty

/-- The targets announced by a value. -/
def parse (value : String) : Links := ofLinks (Link.ofValue value)

/-- The targets announced by all `Link` fields, in order. -/
def ofHeaders (h : Headers) : Links := ofLinks ((h.all "Link").flatMap Link.ofValue)

/-- A target once recorded stays. -/
theorem target?_record (url : String) (l : Links) (r s : Relation) :
    (l.record url r).target? s =
      if r = s then l.target? s <|> some url else l.target? s := by
  cases r <;> cases s <;> rfl

end Links

end LayeredFetch
