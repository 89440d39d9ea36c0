import LayeredFetch.Proofs.Links.Reading

/-!
Announcing links, and reading what is announced.

* **The writer.** `Links.announce` writes targets with their relations, in the usual form.
  Reading gives back all targets but those with a comma or a semicolon
  (`Link.ofValue_announce`): separators are looked for inside of the brackets, too.
* `Links.target?_parse_announce`: so a relation has the first target announced for it that
  holds no separator, and reading is right exactly where the first target of all does.
-/

namespace LayeredFetch

/-! ### White space before a value -/

namespace Link

open Text (pieces cut trim)

/-- White space at the beginning of a segment does not matter. -/
lemma ofSegment?_cons_blank (segment : List Char) :
    ofSegment? (' ' :: segment) = ofSegment? segment := by
  rcases hcut : cut (· == ';') segment with ⟨first, later⟩
  have hcut' : cut (· == ';') (' ' :: segment) = (' ' :: first, later) := by
    rw [cut, hcut]
    rfl
  have htrim : trim (' ' :: first) = trim first := Text.stripBoth_cons (by decide) first
  rw [ofSegment?_of_cut hcut, ofSegment?_of_cut hcut', htrim]

/-- White space at the beginning of a text does not matter. -/
lemma ofText_cons_blank (cs : List Char) : ofText (' ' :: cs) = ofText cs := by
  rcases hcut : cut (· == ',') cs with ⟨first, later⟩
  have hpieces : pieces (· == ',') cs = first :: later := by rw [pieces, hcut]
  have hpieces' : pieces (· == ',') (' ' :: cs) = (' ' :: first) :: later := by
    rw [pieces, cut, hcut]
    rfl
  rw [ofText, ofText, hpieces, hpieces', List.filterMap_cons, List.filterMap_cons,
    ofSegment?_cons_blank]

end Link

/-! ### Writing announcements -/

/-- The word for a relation. -/
def Relation.word : Relation → String
  | next => "next"
  | prev => "prev"
  | first => "first"
  | last => "last"

/-- Writes a target with its relation. -/
def Link.announcement (url : String) (r : Relation) : String :=
  "<" ++ url ++ ">; rel=\"" ++ r.word ++ "\""

/-- Writes targets with their relations, one after another. -/
def Links.announce (targets : List (String × Relation)) : String :=
  ", ".intercalate (targets.map fun (url, r) => Link.announcement url r)

/-- Whether a target holds no separator of announcements. -/
def Link.isUnbroken (url : String) : Bool := url.toList.all fun c => c != ',' && c != ';'

namespace Link

open Text (pieces cut trim)

variable {url : String} {r : Relation}

/-- What follows the target of an announcement, after the first semicolon. -/
def parameter (r : Relation) : List Char :=
  [' ', 'r', 'e', 'l', '=', '"'] ++ r.word.toList ++ ['"']

lemma toList_announcement (url : String) (r : Relation) :
    (announcement url r).toList = '<' :: (url.toList ++ '>' :: ';' :: parameter r) := by
  simp [announcement, parameter]

/-- A parameter names its relation. -/
lemma relations_parameter (r : Relation) :
    ((((pieces (· == ';') (parameter r)).map trim).findSome? relValue?).elim []
      Text.words).filterMap Relation.ofWord? = [r] := by
  cases r <;> decide +kernel

lemma isUnbroken_iff : isUnbroken url = true ↔ ∀ c ∈ url.toList, c ≠ ',' ∧ c ≠ ';' := by
  simp [isUnbroken]

/-- The announcement of a target without separators is a single segment. -/
lemma pieces_announcement (h : isUnbroken url = true) :
    pieces (· == ',') (announcement url r).toList = [(announcement url r).toList] := by
  have hrest : ',' ∉ parameter r := by cases r <;> decide
  have hcomma : ∀ c ∈ (announcement url r).toList, (c == ',') = false := by
    intro c hc
    simp only [toList_announcement, List.mem_cons, List.mem_append] at hc
    rcases hc with rfl | hc | rfl | rfl | hc
    · rfl
    · exact beq_eq_false_iff_ne.mpr (isUnbroken_iff.mp h c hc).1
    · rfl
    · rfl
    · exact beq_eq_false_iff_ne.mpr (ne_of_mem_of_not_mem hc hrest)
  rw [pieces, Text.cut_of_forall_not hcomma]

/-- Its first semicolon is the one that is written after the target. -/
lemma cut_announcement (h : isUnbroken url = true) :
    cut (· == ';') (announcement url r).toList =
      ('<' :: (url.toList ++ ['>']), pieces (· == ';') (parameter r)) := by
  have hsemicolon : ∀ c ∈ '<' :: (url.toList ++ ['>']), (c == ';') = false := by
    intro c hc
    simp only [List.mem_cons, List.mem_append, List.not_mem_nil, or_false] at hc
    rcases hc with rfl | hc | rfl
    · rfl
    · exact beq_eq_false_iff_ne.mpr (isUnbroken_iff.mp h c hc).2
    · rfl
  rw [← Text.cut_append_cons (c := ';') rfl hsemicolon, toList_announcement]
  simp

/-- A target without separators is read as it is announced. -/
lemma ofText_announcement_of_unbroken (hne : url ≠ "") (hunbroken : isUnbroken url = true) :
    ofText (announcement url r).toList = [⟨url, [r]⟩] := by
  have htrim : trim ('<' :: (url.toList ++ ['>'])) = '<' :: (url.toList ++ ['>']) :=
    Text.stripBoth_eq_self (by decide) (by decide) _
  have htarget : target? (trim ('<' :: (url.toList ++ ['>']))) = some url.toList :=
    target?_eq_some_iff.mpr ⟨by simpa using hne, htrim⟩
  rw [ofText, pieces_announcement hunbroken, List.filterMap_cons,
    ofSegment?_of_cut (cut_announcement hunbroken), htarget, relations_parameter]
  simp

/-- A target with a separator is not read at all: nothing stands between brackets without
one. -/
lemma ofText_announcement_of_broken (hopen : '<' ∉ url.toList) (hclose : '>' ∉ url.toList)
    (hbroken : isUnbroken url = false) : ofText (announcement url r).toList = [] := by
  refine List.eq_nil_iff_forall_not_mem.mpr fun link hlink => ?_
  obtain ⟨before, target, after, htext, -, -, hfree⟩ := exists_of_mem_ofText hlink
  -- there is one pair of brackets, and the target stands between them
  have htext : [] ++ '<' :: (url.toList ++ '>' :: ';' :: parameter r) =
      before ++ '<' :: (target ++ '>' :: after) := toList_announcement url r ▸ htext
  have hnoOpen : '<' ∉ url.toList ++ '>' :: ';' :: parameter r := by
    have hrest : '<' ∉ '>' :: ';' :: parameter r := by cases r <;> decide
    simpa [hopen] using hrest
  have hnoClose : '>' ∉ ';' :: parameter r := by cases r <;> decide
  obtain ⟨-, -, hrest⟩ :=
    (List.append_cons_inj_of_notMem List.not_mem_nil hnoOpen).mp htext
  obtain ⟨htarget, -, -⟩ := (List.append_cons_inj_of_notMem hclose hnoClose).mp hrest
  have hunbroken : isUnbroken url = true := isUnbroken_iff.mpr (htarget ▸ hfree)
  rw [hunbroken] at hbroken
  cases hbroken

/-- **Reading what is announced** gives back the targets without separators, and drops the
others. -/
theorem ofValue_announce {targets : List (String × Relation)}
    (h : ∀ p ∈ targets, p.1 ≠ "" ∧ '<' ∉ p.1.toList ∧ '>' ∉ p.1.toList) :
    ofValue (Links.announce targets) =
      (targets.filter fun p => isUnbroken p.1).map fun p => ⟨p.1, [p.2]⟩ := by
  have hone : ∀ p ∈ targets, ofText (announcement p.1 p.2).toList =
      if isUnbroken p.1 = true then [⟨p.1, [p.2]⟩] else [] := by
    intro p hp
    obtain ⟨hne, hopen, hclose⟩ := h p hp
    split
    · next hunbroken => exact ofText_announcement_of_unbroken hne hunbroken
    · next hbroken =>
        exact ofText_announcement_of_broken hopen hclose (eq_false_of_ne_true hbroken)
  rw [ofValue_eq]
  clear h
  induction targets with
  | nil => decide +kernel
  | cons p targets ih =>
      have ih := ih fun q hq => hone q (List.mem_cons_of_mem p hq)
      have hp := hone p List.mem_cons_self
      have hsplit : ofText (Links.announce (p :: targets)).toList =
          ofText (announcement p.1 p.2).toList ++ ofText (Links.announce targets).toList := by
        cases targets with
        | nil =>
            have hnil : ofText (Links.announce []).toList = [] := by decide +kernel
            rw [hnil, List.append_nil]
            simp [Links.announce]
        | cons q targets =>
            have hjoin : (Links.announce (p :: q :: targets)).toList =
                (announcement p.1 p.2).toList ++
                  ',' :: ' ' :: (Links.announce (q :: targets)).toList := by
              simp [Links.announce, String.intercalate_cons_cons]
            rw [hjoin, ofText_append_comma, ofText_cons_blank]
      rw [hsplit, hp, ih, List.filter_cons]
      split <;> simp

end Link

namespace Links

/-- Looking only among elements with `q` finds the same value if and only if what is found
first has `q`, provided the value tells whether an element has `q`. -/
lemma map_find?_and_eq_iff {α β : Type} {p q : α → Bool} {f : α → β}
    (hf : ∀ a b, f a = f b → q a = q b) (xs : List α) :
    (xs.find? fun a => p a && q a).map f = (xs.find? p).map f ↔
      ∀ a ∈ xs.find? p, q a = true := by
  induction xs with
  | nil => simp
  | cons x xs ih =>
      cases hp : p x with
      | false => simpa [hp] using ih
      | true =>
          cases hq : q x with
          | true => simp [hp, hq]
          | false =>
              have hne : (xs.find? fun a => p a && q a).map f ≠ some (f x) := by
                intro hfound
                obtain ⟨y, hy, hfy⟩ := Option.map_eq_some_iff.mp hfound
                have hqy := List.find?_some hy
                rw [hf y x hfy, hq, Bool.and_false] at hqy
                cases hqy
              simp [hp, hq, hne]

/-- **A relation has the first target that is announced for it and holds no separator.** So
reading an announcement is right for a relation if and only if the first of all targets
announced for it holds none: one with a comma or a semicolon is lost, though it stands
between brackets. -/
theorem target?_parse_announce (targets : List (String × Relation))
    (h : ∀ p ∈ targets, p.1 ≠ "" ∧ '<' ∉ p.1.toList ∧ '>' ∉ p.1.toList) (r : Relation) :
    (parse (announce targets)).target? r =
        (targets.find? fun p => decide (p.2 = r) && Link.isUnbroken p.1).map Prod.fst ∧
      ((parse (announce targets)).target? r =
          (targets.find? fun p => decide (p.2 = r)).map Prod.fst ↔
        ∀ p ∈ targets.find? (fun p => decide (p.2 = r)), Link.isUnbroken p.1 = true) := by
  have hread : (parse (announce targets)).target? r =
      (targets.find? fun p => decide (p.2 = r) && Link.isUnbroken p.1).map Prod.fst := by
    have hnamed : ∀ p : String × Relation,
        decide (Link.isUnbroken p.1 = true ∧ decide (r ∈ [p.2]) = true) =
          (decide (p.2 = r) && Link.isUnbroken p.1) := by
      intro p
      rw [Bool.eq_iff_iff]
      simp only [decide_eq_true_eq, Bool.and_eq_true, List.mem_singleton]
      exact ⟨fun ⟨hunbroken, hr⟩ => ⟨hr.symm, hunbroken⟩,
        fun ⟨hr, hunbroken⟩ => ⟨hunbroken, hr.symm⟩⟩
    rw [parse, target?_ofLinks, Link.ofValue_announce h, List.find?_map, List.find?_filter,
      Option.map_map]
    exact congrArg (fun test => (targets.find? test).map Prod.fst) (funext hnamed)
  refine ⟨hread, ?_⟩
  rw [hread]
  exact map_find?_and_eq_iff (fun p q hpq => congrArg Link.isUnbroken hpq) targets

/-- Two targets for the next page, the first one with a comma. -/
def listed : List (String × Relation) :=
  [("https://h/items?id=1,2", .next), ("https://h/9;v=1", .last), ("https://h/3", .next)]

/-- The second target is read, and the first is lost. -/
theorem target?_parse_announce_listed :
    (parse (announce listed)).target? .next = some "https://h/3" ∧
      (parse (announce listed)).target? .last = none := by
  have h : ∀ p ∈ listed, p.1 ≠ "" ∧ '<' ∉ p.1.toList ∧ '>' ∉ p.1.toList := by
    decide +kernel
  rw [(target?_parse_announce listed h .next).1, (target?_parse_announce listed h .last).1]
  decide +kernel

/-- A single target with a comma leaves nothing to read. -/
theorem comma_target_lost :
    announce [("https://h/items?id=1,2", .next)] = "<https://h/items?id=1,2>; rel=\"next\"" ∧
      parse (announce [("https://h/items?id=1,2", .next)]) = empty := by
  decide +kernel

end Links

end LayeredFetch
