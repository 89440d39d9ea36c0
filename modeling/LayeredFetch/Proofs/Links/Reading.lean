import Mathlib.Data.List.Basic
import Mathlib.Data.List.Infix
import LayeredFetch.Links
import LayeredFetch.Proofs.Text.Parts

/-!
What the value of a `Link` field says.

* **First wins.** Of several links the first that names a relation gives its target
  (`Links.target?_ofLinks`).
* **Segments.** `Link.HasTarget` and `Link.Names` say what a segment between commas means, by
  the pieces between its semicolons. It is read as that (`Link.exists_ofSegment?_iff`,
  `Link.mem_relations_iff`).
* `Links.meaning_of_value`: so a relation has the target of the first segment that has one and
  names the relation, and the target stands literally between `<` and `>`.
* `Links.comma_joins_fields`: a comma between two values makes one of them, and several fields
  say what one does that holds all their values.
-/

namespace LayeredFetch

/-! ### The first link that names a relation -/

namespace Links

/-- A link gives its target to each of its relations that has none. -/
lemma target?_add (l : Links) (link : Link) (r : Relation) :
    (l.add link).target? r =
      (l.target? r <|> if r ∈ link.relations then some link.url else none) := by
  rw [add]
  generalize link.relations = relations
  induction relations generalizing l with
  | nil => simp
  | cons named relations ih =>
      rw [List.foldl_cons, ih, target?_record]
      by_cases hnamed : named = r
      · subst hnamed
        cases l.target? named <;> simp
      · have hmem : r ∈ named :: relations ↔ r ∈ relations := by
          simp [Ne.symm hnamed]
        rw [if_neg hnamed, if_congr hmem rfl rfl]

/-- **The first link that names a relation** gives its target. -/
theorem target?_ofLinks (links : List Link) (r : Relation) :
    (ofLinks links).target? r =
      (links.find? fun link => decide (r ∈ link.relations)).map Link.url := by
  have hfold : ∀ l : Links, (links.foldl add l).target? r =
      (l.target? r <|> (links.find? fun link => decide (r ∈ link.relations)).map Link.url) := by
    induction links with
    | nil => intro l; simp
    | cons link links ih =>
        intro l
        rw [List.foldl_cons, ih, target?_add]
        by_cases hr : r ∈ link.relations
        · cases l.target? r <;> simp [hr]
        · simp [hr]
  have hempty : empty.target? r = none := by cases r <;> rfl
  rw [ofLinks, hfold, hempty, Option.orElse_eq_orElse]
  simp

end Links

/-! ### Reading a text -/

namespace Link

open Text (pieces cut trim)

variable {cs url : List Char} {link : Link}

/-- What stands between `<` and `>`. -/
lemma target?_eq_some_iff : target? cs = some url ↔ url ≠ [] ∧ cs = '<' :: (url ++ ['>']) := by
  constructor
  · intro h
    unfold target? at h
    split at h
    · next rest =>
        dsimp only at h
        split at h
        · next hends =>
            obtain rfl := Option.some.inj h
            exact ⟨hends.2, by rw [List.dropLast_append_getLast? _ hends.1]⟩
        · cases h
    · cases h
  · rintro ⟨hne, rfl⟩
    simp [target?, hne]

/-- The links announced by a text. -/
def ofText (cs : List Char) : List Link := (pieces (· == ',') cs).filterMap ofSegment?

lemma ofValue_eq (value : String) : ofValue value = ofText value.toList := rfl

/-- A comma separates what a text announces. -/
lemma ofText_append_comma (before after : List Char) :
    ofText (before ++ ',' :: after) = ofText before ++ ofText after := by
  rw [ofText, Text.pieces_append_cons rfl, List.filterMap_append]
  rfl

/-- A segment, cut at its semicolons. -/
lemma ofSegment?_of_cut {segment first : List Char} {later : List (List Char)}
    (h : cut (· == ';') segment = (first, later)) :
    ofSegment? segment = (target? (trim first)).map fun url =>
      ⟨String.ofList url, (((later.map trim).findSome? relValue?).elim [] Text.words).filterMap
        Relation.ofWord?⟩ := by
  rw [ofSegment?, h]
  cases htarget : target? (trim first) with
  | none => simp [htarget]
  | some url => simp [htarget]

/-- **A link stands literally in its text**, its target between `<` and `>`, and no separator
in between. -/
theorem exists_of_mem_ofText (h : link ∈ ofText cs) :
    ∃ before url after, cs = before ++ '<' :: (url ++ '>' :: after) ∧
      link.url = String.ofList url ∧ url ≠ [] ∧ ∀ c ∈ url, c ≠ ',' ∧ c ≠ ';' := by
  obtain ⟨segment, hsegment, hlink⟩ := List.mem_filterMap.mp h
  obtain ⟨hinText, hcomma⟩ := Text.infix_of_mem_pieces hsegment
  rcases hcut : cut (· == ';') segment with ⟨first, later⟩
  have hfirst : first ∈ pieces (· == ';') segment := by
    rw [pieces, hcut]
    exact List.mem_cons_self
  obtain ⟨hinSegment, hsemicolon⟩ := Text.infix_of_mem_pieces hfirst
  rw [ofSegment?_of_cut hcut] at hlink
  obtain ⟨url, htarget, rfl⟩ := Option.map_eq_some_iff.mp hlink
  obtain ⟨hne, htrim⟩ := target?_eq_some_iff.mp htarget
  have hinFirst : '<' :: (url ++ ['>']) <:+: first := htrim ▸ Text.stripBoth_infix _ first
  have hurl : url <:+: first := by
    have hmiddle : url <:+: '<' :: (url ++ ['>']) := ⟨['<'], ['>'], rfl⟩
    exact hmiddle.trans hinFirst
  have hfree : ∀ c ∈ url, c ≠ ',' ∧ c ≠ ';' := by
    intro c hc
    have hc₁ : (c == ';') = false := hsemicolon c (hurl.subset hc)
    have hc₂ : (c == ',') = false := hcomma c (hinSegment.subset (hurl.subset hc))
    exact ⟨by simpa using hc₂, by simpa using hc₁⟩
  obtain ⟨before, after, hwhole⟩ := (hinFirst.trans hinSegment).trans hinText
  exact ⟨before, url, after, by simp [← hwhole], rfl, hne, hfree⟩

end Link

/-! ### What a segment means -/

/-- An element is the first one of a list with a property. -/
def IsFirst {α : Type} (P : α → Prop) (x : α) (xs : List α) : Prop :=
  ∃ before after, xs = before ++ x :: after ∧ P x ∧ ∀ y ∈ before, ¬ P y

/-- The words that name a relation, in lower case. -/
def Relation.words : Relation → List String
  | next => ["next"]
  | prev => ["prev", "previous"]
  | first => ["first"]
  | last => ["last"]

/-- A word means the relation that it names. -/
lemma Relation.ofWord?_eq_some_iff {word : List Char} {r : Relation} :
    ofWord? word = some r ↔ String.ofList (word.map Char.toLower) ∈ r.words := by
  rw [ofWord?]
  generalize String.ofList (word.map Char.toLower) = lowered
  constructor
  · intro h
    split at h <;> cases h <;> simp [words]
  · intro h
    cases r with
    | next => obtain rfl := List.mem_singleton.mp h; rfl
    | prev =>
        rcases List.mem_pair.mp h with rfl | rfl
        · rfl
        · rfl
    | first => obtain rfl := List.mem_singleton.mp h; rfl
    | last => obtain rfl := List.mem_singleton.mp h; rfl

namespace Link

open Text (pieces cut isBlank trim StripsTo)

/-- The first piece of a segment, without the white space around it, is its target between
`<` and `>`. -/
def HasTarget (segment url : List Char) : Prop :=
  url ≠ [] ∧ ∃ first ∈ (segment.splitOn ';').head?,
    StripsTo isBlank first ('<' :: (url ++ ['>']))

/-- A piece gives `rel` a value: it has `rel` before its first `=`, in any case, and after it
the value, in any number of quotes, all this with white space around it. -/
def GivesRel (piece value : List Char) : Prop :=
  ∃ key text name quoted, piece = key ++ '=' :: text ∧ '=' ∉ key ∧
    StripsTo isBlank key name ∧ name.map Char.toLower = "rel".toList ∧
    StripsTo isBlank text quoted ∧ StripsTo (· == '"') quoted value

/-- Of the later pieces of a segment, the first that gives `rel` a value gives it one with a
word for the relation, in any case. -/
def Names (segment : List Char) (r : Relation) : Prop :=
  ∃ piece value word,
    IsFirst (fun p => ∃ v, GivesRel p v) piece (segment.splitOn ';').tail ∧
    GivesRel piece value ∧ word ∈ value.splitOnP isBlank ∧
    String.ofList (word.map Char.toLower) ∈ r.words

/-- A segment has a target, and names the relation. -/
def Announces (segment : List Char) (r : Relation) : Prop :=
  (∃ url, HasTarget segment url) ∧ Names segment r

/-! ### Segments are read as they are meant -/

variable {segment first piece value url : List Char} {later : List (List Char)} {link : Link}
variable {r : Relation}

/-- The relations meant by the words of a value are those that its words name. -/
lemma mem_filterMap_words_iff :
    r ∈ (Text.words value).filterMap Relation.ofWord? ↔
      ∃ word ∈ value.splitOnP isBlank, String.ofList (word.map Char.toLower) ∈ r.words := by
  simp only [List.mem_filterMap, Text.words, List.mem_filter, Text.pieces_eq_splitOnP,
    Relation.ofWord?_eq_some_iff]
  constructor
  · rintro ⟨word, ⟨hword, -⟩, hnamed⟩
    exact ⟨word, hword, hnamed⟩
  · rintro ⟨word, hword, hnamed⟩
    -- the empty text between two blanks names nothing
    have hne : word ≠ [] := by
      rintro rfl
      cases r <;> simp [Relation.words] at hnamed
    exact ⟨word, ⟨hword, by simpa using hne⟩, hnamed⟩

/-- A piece is read as it is meant, though it is trimmed as a whole before it is cut. -/
lemma relValue?_trim_eq_some_iff : relValue? (trim piece) = some value ↔ GivesRel piece value := by
  rw [relValue?, Text.splitOnce_trim (by decide)]
  constructor
  · intro h
    cases hsplit : Text.splitOnce ['='] piece with
    | none => simp [hsplit] at h
    | some parts =>
        obtain ⟨key, text⟩ := parts
        obtain ⟨hpiece, hfirst⟩ := Text.splitOnce_singleton_eq_some_iff.mp hsplit
        simp only [hsplit, Option.map_some, Text.trim_dropWhile, Text.trim_stripEnd] at h
        split at h
        · next hkey =>
            exact ⟨key, text, trim key, trim text, hpiece, hfirst, Text.stripsTo_iff.mpr rfl, hkey,
              Text.stripsTo_iff.mpr rfl, Text.stripsTo_iff.mpr (Option.some.inj h)⟩
        · cases h
  · rintro ⟨key, text, name, quoted, hpiece, hfirst, hname, hkey, hquoted, hvalue⟩
    obtain rfl := Text.stripsTo_iff.mp hname
    obtain rfl := Text.stripsTo_iff.mp hquoted
    obtain rfl := Text.stripsTo_iff.mp hvalue
    rw [Text.splitOnce_singleton_eq_some_iff.mpr ⟨hpiece, hfirst⟩]
    simp only [Option.map_some, Text.trim_dropWhile, Text.trim_stripEnd]
    exact if_pos hkey

/-- The first piece that can be read gives the value. -/
lemma findSome?_relValue?_eq_some_iff :
    (later.map trim).findSome? relValue? = some value ↔
      ∃ piece, IsFirst (fun p => ∃ v, GivesRel p v) piece later ∧ GivesRel piece value := by
  have hnone : ∀ p, relValue? (trim p) = none ↔ ¬ ∃ v, GivesRel p v := by
    intro p
    simp only [Option.eq_none_iff_forall_ne_some, ne_eq, relValue?_trim_eq_some_iff, not_exists]
  simp only [List.findSome?_map, List.findSome?_eq_some_iff, Function.comp_apply,
    relValue?_trim_eq_some_iff, hnone, IsFirst]
  constructor
  · rintro ⟨before, piece, after, hsplit, hvalue, hbefore⟩
    exact ⟨piece, ⟨before, after, hsplit, ⟨value, hvalue⟩, hbefore⟩, hvalue⟩
  · rintro ⟨piece, ⟨before, after, hsplit, -, hbefore⟩, hvalue⟩
    exact ⟨before, piece, after, hsplit, hvalue, hbefore⟩

lemma splitOn_eq_of_cut (h : cut (· == ';') segment = (first, later)) :
    segment.splitOn ';' = first :: later := by
  rw [List.splitOn_eq_splitOnP, ← Text.pieces_eq_splitOnP, pieces, h]

/-- **A segment is read as a link** to a target if and only if it has that target. -/
lemma exists_ofSegment?_iff {target : String} :
    (∃ link, ofSegment? segment = some link ∧ link.url = target) ↔
      HasTarget segment target.toList := by
  rcases hcut : cut (· == ';') segment with ⟨first, later⟩
  rw [ofSegment?_of_cut hcut, HasTarget, splitOn_eq_of_cut hcut]
  simp only [Option.map_eq_some_iff, target?_eq_some_iff, List.head?_cons, Option.mem_some_iff,
    exists_eq_left', Text.stripsTo_iff]
  constructor
  · rintro ⟨link, ⟨url, htarget, rfl⟩, rfl⟩
    rwa [String.toList_ofList]
  · intro htarget
    exact ⟨_, ⟨target.toList, htarget, rfl⟩, String.ofList_toList⟩

/-- **Its relations** are those that the segment names. -/
lemma mem_relations_iff (h : ofSegment? segment = some link) :
    r ∈ link.relations ↔ Names segment r := by
  rcases hcut : cut (· == ';') segment with ⟨first, later⟩
  rw [ofSegment?_of_cut hcut] at h
  obtain ⟨url, -, rfl⟩ := Option.map_eq_some_iff.mp h
  rw [Names, splitOn_eq_of_cut hcut, List.tail_cons]
  constructor
  · intro hr
    cases hvalue : (later.map trim).findSome? relValue? with
    | none => simp [hvalue] at hr
    | some value =>
        rw [hvalue, Option.elim_some, mem_filterMap_words_iff] at hr
        obtain ⟨piece, hfirst, hgives⟩ := findSome?_relValue?_eq_some_iff.mp hvalue
        obtain ⟨word, hword, hnamed⟩ := hr
        exact ⟨piece, value, word, hfirst, hgives, hword, hnamed⟩
  · rintro ⟨piece, value, word, hfirst, hgives, hword, hnamed⟩
    have hvalue := findSome?_relValue?_eq_some_iff.mpr ⟨piece, hfirst, hgives⟩
    rw [hvalue, Option.elim_some, mem_filterMap_words_iff]
    exact ⟨word, hword, hnamed⟩

/-- Whether a segment is read as a link with a relation. -/
def isReadWith (r : Relation) (segment : List Char) : Bool :=
  (ofSegment? segment).any fun link => decide (r ∈ link.relations)

/-- It is if and only if it announces the relation. -/
lemma isReadWith_iff : isReadWith r segment = true ↔ Announces segment r := by
  rw [isReadWith, Option.any_eq_true, Announces]
  constructor
  · rintro ⟨link, hlink, hr⟩
    exact ⟨⟨_, exists_ofSegment?_iff.mp ⟨link, hlink, rfl⟩⟩,
      (mem_relations_iff hlink).mp (of_decide_eq_true hr)⟩
  · rintro ⟨⟨url, htarget⟩, hnames⟩
    rw [← String.toList_ofList (l := url)] at htarget
    obtain ⟨link, hlink, -⟩ := exists_ofSegment?_iff.mpr htarget
    exact ⟨link, hlink, decide_eq_true ((mem_relations_iff hlink).mpr hnames)⟩

end Link

/-! ### Values -/

namespace Links

/-- The target of a relation is that of the first segment that announces the relation. -/
lemma target?_parse (value : String) (r : Relation) :
    (parse value).target? r =
      (((value.toList.splitOn ',').find? (Link.isReadWith r)).bind Link.ofSegment?).map
        Link.url := by
  rw [parse, target?_ofLinks, Link.ofValue, Text.pieces_eq_splitOnP, List.find?_filterMap]
  rfl

lemma target?_parse_eq_some_iff {value url : String} {r : Relation} :
    (parse value).target? r = some url ↔
      ∃ segment, IsFirst (Link.Announces · r) segment (value.toList.splitOn ',') ∧
        Link.HasTarget segment url.toList := by
  rw [target?_parse]
  simp only [Option.map_eq_some_iff, Option.bind_eq_some_iff, List.find?_eq_some_iff_append,
    Bool.not_eq_true', Bool.eq_false_iff, ne_eq, Link.isReadWith_iff]
  constructor
  · rintro ⟨link, ⟨segment, ⟨hannounces, before, after, hsplit, hbefore⟩, hlink⟩, hurl⟩
    exact ⟨segment, ⟨before, after, hsplit, hannounces, hbefore⟩,
      Link.exists_ofSegment?_iff.mp ⟨link, hlink, hurl⟩⟩
  · rintro ⟨segment, ⟨before, after, hsplit, hannounces, hbefore⟩, htarget⟩
    obtain ⟨link, hlink, hurl⟩ := Link.exists_ofSegment?_iff.mpr htarget
    exact ⟨link, ⟨segment, ⟨hannounces, before, after, hsplit, hbefore⟩, hlink⟩, hurl⟩

lemma target?_parse_eq_none_iff {value : String} {r : Relation} :
    (parse value).target? r = none ↔
      ∀ segment ∈ value.toList.splitOn ',', ¬ Link.Announces segment r := by
  rw [target?_parse, Option.map_eq_none_iff, Option.bind_eq_none_iff]
  constructor
  · intro hnone segment hsegment hannounces
    cases hfind : (value.toList.splitOn ',').find? (Link.isReadWith r) with
    | none =>
        exact List.find?_eq_none.mp hfind segment hsegment (Link.isReadWith_iff.mpr hannounces)
    | some found =>
        have hread := List.find?_some hfind
        rw [Link.isReadWith, hnone found hfind] at hread
        cases hread
  · intro hno segment hfind
    exact absurd (Link.isReadWith_iff.mp (List.find?_some hfind))
      (hno segment (List.mem_of_find?_eq_some hfind))

/-- A target stands between `<` and `>` in the value. -/
lemma exists_of_mem_target? {value url : String} {r : Relation}
    (h : url ∈ (parse value).target? r) :
    ∃ before after, value = before ++ "<" ++ url ++ ">" ++ after := by
  rw [parse, target?_ofLinks, Option.mem_def, Option.map_eq_some_iff] at h
  obtain ⟨link, hlink, rfl⟩ := h
  obtain ⟨before, target, after, htext, hurl, -⟩ :=
    Link.exists_of_mem_ofText (List.mem_of_find?_eq_some hlink)
  refine ⟨String.ofList before, String.ofList after, String.toList_injective ?_⟩
  simp [htext, hurl]

/-- **The exact meaning of a value.** A relation has the target of the first segment between
commas that has a target and names the relation, and none if there is no such segment. A
target stands literally between `<` and `>` in the value. -/
theorem meaning_of_value (value : String) (r : Relation) :
    (∀ url, (parse value).target? r = some url ↔
      ∃ segment, IsFirst (Link.Announces · r) segment (value.toList.splitOn ',') ∧
        Link.HasTarget segment url.toList) ∧
    ((parse value).target? r = none ↔
      ∀ segment ∈ value.toList.splitOn ',', ¬ Link.Announces segment r) ∧
    ∀ url ∈ (parse value).target? r,
      ∃ before after, value = before ++ "<" ++ url ++ ">" ++ after :=
  ⟨fun _ => target?_parse_eq_some_iff, target?_parse_eq_none_iff,
    fun _ => exists_of_mem_target?⟩

/-- White space, other parameters, other words, the case of letters and a second `rel` are all
passed over; an empty target is none. -/
example :
    parse ("<>; rel=next, <b>; rel , " ++
      "< c >; title=x; REL = \" Previous  up\"; rel=next, <d>;rel=prev") =
        { empty with prev := some " c " } := by
  decide +kernel

/-! ### Several values -/

/-- The targets of some links, and of others for the relations that have none. -/
lemma target?_ofLinks_append (links others : List Link) (r : Relation) :
    (ofLinks (links ++ others)).target? r =
      ((ofLinks links).target? r <|> (ofLinks others).target? r) := by
  rw [target?_ofLinks, target?_ofLinks, target?_ofLinks, List.find?_append, Option.map_or,
    Option.or_eq_orElse]
  rfl

/-- A comma joins what two values announce. -/
lemma ofValue_append_comma (a b : String) :
    Link.ofValue (a ++ "," ++ b) = Link.ofValue a ++ Link.ofValue b := by
  rw [Link.ofValue_eq, String.toList_append, String.toList_append, List.append_assoc]
  exact Link.ofText_append_comma a.toList b.toList

/-- Values joined with commas announce the links of each, in order. -/
lemma ofValue_intercalate (values : List String) :
    Link.ofValue (",".intercalate values) = values.flatMap Link.ofValue := by
  induction values with
  | nil => decide +kernel
  | cons value values ih =>
      cases values with
      | nil => simp
      | cons next values =>
          rw [String.intercalate_cons_cons, List.flatMap_cons, ← ih, ofValue_append_comma]

/-- **Several fields say what one says** that holds their values with commas in between: of two
values joined that way, the second one matters only for relations without a target in the
first. -/
theorem comma_joins_fields :
    (∀ (a b : String) (r : Relation), (parse (a ++ "," ++ b)).target? r =
      ((parse a).target? r <|> (parse b).target? r)) ∧
    ∀ h : Headers, ofHeaders h =
      if h.all "Link" = [] then empty else parse (",".intercalate (h.all "Link")) := by
  constructor
  · intro a b r
    rw [parse, ofValue_append_comma, target?_ofLinks_append]
    rfl
  · intro h
    split
    · next hnone =>
        rw [ofHeaders, hnone]
        rfl
    · rw [ofHeaders, parse, ofValue_intercalate]

end Links

end LayeredFetch
