import LayeredFetch.Config.BaseUrl
import LayeredFetch.Proofs.Text.Parts

/-!
Reading the text of a base URL again.

White space is taken from a text before the slashes at its end, and not once more
afterwards. So what is left may end in white space, which the next reading takes away.

* **The grammar.** `BaseUrl.parse_eq_ok_iff`: a text writes a base URL if and only if it is
  the text of a well-formed one, once it is normalized.
* **The text of a base URL** is well formed up to the rest after its host, so normalizing it
  concerns that rest only (`BaseUrl.normalize_text`).
* `BaseUrl.ofJson_toJson`: so it is always read, with the same scheme and the same host, and
  gives the same base URL if and only if it does not end in white space.
-/

namespace LayeredFetch

/-- A letter is not white space. -/
lemma Text.isBlank_of_isAlpha {c : Char} (h : c.isAlpha = true) : Text.isBlank c = false := by
  have hletter : (65 ≤ c.toNat ∧ c.toNat ≤ 90) ∨ (97 ≤ c.toNat ∧ c.toNat ≤ 122) := by
    have hcase : (decide ('A'.val ≤ c.val ∧ c.val ≤ 'Z'.val) ||
        decide ('a'.val ≤ c.val) && decide (c.val ≤ 'z'.val)) = true := h
    simpa [UInt32.le_iff_toNat_le, ← Char.toNat_val] using hcase
  refine eq_false_of_ne_true fun hblank => ?_
  simp only [Text.isBlank, Text.blankRanges, List.any_cons, List.any_nil, Bool.or_eq_true,
    Bool.and_eq_true, decide_eq_true_eq, Bool.or_false] at hblank
  omega

namespace BaseUrl

open Text (isBlank stripEnd)

variable {s : String} {b : BaseUrl}

/-! ### The grammar -/

/-- The parts of a base URL are as its text needs them to be. -/
structure WellFormed (b : BaseUrl) : Prop where
  scheme_ne : b.scheme.toList ≠ []
  scheme_alpha : ∀ c ∈ b.scheme.toList, c.isAlpha = true
  host_ne : b.host.toList ≠ []
  host_inner : ∀ c ∈ b.host.toList, endsHost c = false
  host_solid : ∀ c ∈ b.host.toList, isBlank c = false
  rest_begin : ∀ c ∈ b.rest.toList.head?, endsHost c = true

lemma toList_text (b : BaseUrl) : b.text.toList =
    b.scheme.toList ++ Uri.authorityMark ++ (b.host.toList ++ b.rest.toList) := by
  have hmark : "://".toList = Uri.authorityMark := rfl
  rw [text, String.toList_append, String.toList_append, String.toList_append, hmark]
  simp only [List.append_assoc]

/-- The text begins as an absolute URI does. -/
lemma WellFormed.split?_text (h : b.WellFormed) :
    Uri.split? b.text.toList = some (b.scheme.toList, b.host.toList ++ b.rest.toList) :=
  Uri.split?_eq_some_iff.mpr ⟨b.toList_text, h.scheme_ne, h.scheme_alpha⟩

/-- There is no slash in a host. -/
lemma WellFormed.ne_slash (h : b.WellFormed) {c : Char} (hc : c ∈ b.host.toList) : c ≠ '/' := by
  rintro rfl
  cases h.host_inner _ hc

/-- The host is what stands before the first character that ends it. -/
lemma WellFormed.cut (h : b.WellFormed) :
    (b.host.toList ++ b.rest.toList).takeWhile (!endsHost ·) = b.host.toList ∧
      (b.host.toList ++ b.rest.toList).dropWhile (!endsHost ·) = b.rest.toList := by
  have hhost : ∀ c ∈ b.host.toList, (!endsHost c) = true := by
    intro c hc
    rw [h.host_inner c hc]
    rfl
  rw [List.takeWhile_append_of_pos hhost, List.dropWhile_append_of_pos hhost]
  cases hrest : b.rest.toList with
  | nil => simp
  | cons c cs =>
      have hc : endsHost c = true := h.rest_begin c (by rw [hrest]; rfl)
      simp [hc]

/-- The parts that a text is cut into are well formed, if there is a host without white
space. -/
lemma wellFormed_of_cut {scheme after : List Char} (hne : scheme ≠ [])
    (halpha : ∀ c ∈ scheme, c.isAlpha = true) (hhost : after.takeWhile (!endsHost ·) ≠ [])
    (hsolid : ∀ c ∈ after.takeWhile (!endsHost ·), isBlank c = false) :
    WellFormed ⟨String.ofList scheme, String.ofList (after.takeWhile (!endsHost ·)),
      String.ofList (after.dropWhile (!endsHost ·))⟩ where
  scheme_ne := by simpa using hne
  scheme_alpha := by simpa using halpha
  host_ne := by simpa using hhost
  host_inner c hc := by
    rw [String.toList_ofList] at hc
    simpa using List.mem_takeWhile_imp hc
  host_solid := by simpa using hsolid
  rest_begin c hc := by
    rw [String.toList_ofList] at hc
    have hbegin := List.head?_dropWhile_not (!endsHost ·) after
    rw [Option.mem_def.mp hc] at hbegin
    simpa using hbegin

/-- **The grammar of base URLs**: a text writes a base URL if and only if it is, once
normalized, the text of that base URL, and its parts are well formed. -/
theorem parse_eq_ok_iff : parse s = .ok b ↔ b.WellFormed ∧ normalize s = b.text.toList := by
  rw [parse]
  dsimp only
  constructor
  · intro h
    split at h
    · cases h
    · next scheme after hsplit =>
        obtain ⟨htext, hne, halpha⟩ := Uri.split?_eq_some_iff.mp hsplit
        split at h
        · cases h
        · next hhost =>
            obtain rfl := Except.ok.inj h
            simp only [Bool.or_eq_true, not_or, List.isEmpty_iff, List.any_eq_true,
              not_exists, not_and, Bool.not_eq_true] at hhost
            refine ⟨wellFormed_of_cut hne halpha hhost.1 hhost.2, ?_⟩
            rw [toList_text, htext]
            simp only [String.toList_ofList, List.takeWhile_append_dropWhile]
  · rintro ⟨h, htext⟩
    have hhost : (b.host.toList.isEmpty || b.host.toList.any isBlank) = false := by
      simpa using ⟨by simpa using h.host_ne, h.host_solid⟩
    rw [htext, h.split?_text]
    dsimp only
    rw [h.cut.1, h.cut.2, hhost, if_neg Bool.false_ne_true]
    simp only [String.ofList_toList]

/-! ### The text of a base URL -/

/-- A base URL whose rest lost the white space at its end, and then the slashes there. -/
def shortened (b : BaseUrl) : BaseUrl :=
  { b with rest := String.ofList (stripEnd (· == '/') (stripEnd isBlank b.rest.toList)) }

/-- The rest of a base URL may be any that begins as a rest does. -/
lemma WellFormed.with_rest (h : b.WellFormed) {rest : String}
    (hrest : ∀ c ∈ rest.toList.head?, endsHost c = true) : WellFormed { b with rest } :=
  { h with rest_begin := hrest }

/-- What is taken from the rest leaves it where it begins. -/
lemma WellFormed.shortened (h : b.WellFormed) : b.shortened.WellFormed := by
  refine h.with_rest fun c hc => h.rest_begin c ?_
  have hprefix : stripEnd (· == '/') (stripEnd isBlank b.rest.toList) <+: b.rest.toList :=
    (Text.stripEnd_prefix _ _).trans (Text.stripEnd_prefix _ _)
  rw [String.toList_ofList] at hc
  obtain ⟨run, hrun⟩ := hprefix
  rw [← hrun, List.head?_append, Option.mem_def.mp hc]
  rfl

/-- There is no white space where the text of a base URL begins. -/
lemma trim_text (h : b.WellFormed) :
    Text.trim b.text.toList = stripEnd isBlank b.text.toList := by
  obtain ⟨c, cs, hscheme⟩ := List.exists_cons_of_ne_nil h.scheme_ne
  have hc : isBlank c = false :=
    Text.isBlank_of_isAlpha (h.scheme_alpha c (hscheme ▸ List.mem_cons_self))
  have hbegin : b.text.toList.dropWhile isBlank = b.text.toList := by
    rw [toList_text, hscheme, List.cons_append, List.cons_append,
      List.dropWhile_cons_of_neg (by simp [hc])]
  rw [Text.trim, Text.stripBoth, hbegin]

/-- Stripping what is not in the host concerns nothing but what follows the host. -/
lemma WellFormed.stripEnd_host (h : b.WellFormed) {p : Char → Bool}
    (hp : ∀ c ∈ b.host.toList, p c = false) (rest : List Char) :
    stripEnd p (b.scheme.toList ++ Uri.authorityMark ++ (b.host.toList ++ rest)) =
      b.scheme.toList ++ Uri.authorityMark ++ (b.host.toList ++ stripEnd p rest) := by
  obtain ⟨host, last, hhost⟩ := (List.eq_nil_or_concat b.host.toList).resolve_left h.host_ne
  have hlast : p last = false := hp last (by simp [hhost])
  have hassoc : ∀ rest, b.scheme.toList ++ Uri.authorityMark ++ (b.host.toList ++ rest) =
      b.scheme.toList ++ Uri.authorityMark ++ host ++ last :: rest := by
    intro rest
    simp [hhost]
  rw [hassoc, Text.stripEnd_append_cons hlast, hassoc]

/-- **Normalizing the text of a base URL** concerns nothing but its rest. -/
lemma normalize_text (h : b.WellFormed) : normalize b.text = b.shortened.text.toList := by
  have hslash : ∀ c ∈ b.host.toList, (c == '/') = false := fun c hc =>
    beq_false_of_ne (h.ne_slash hc)
  rw [normalize, trim_text h, toList_text, h.stripEnd_host h.host_solid, h.stripEnd_host hslash,
    toList_text]
  simp only [shortened, String.toList_ofList]

/-- A base URL whose text does not end in a slash loses nothing if and only if its text does
not end in white space either. -/
lemma shortened_eq_self_iff (h : b.WellFormed)
    (hend : stripEnd (· == '/') b.text.toList = b.text.toList) :
    b.shortened = b ↔ ∀ last ∈ b.text.toList.getLast?, isBlank last = false := by
  have htext := normalize_text h
  rw [← Text.stripEnd_eq_self_iff, ← trim_text h]
  constructor
  · intro hsame
    rw [hsame, normalize] at htext
    have hshort : stripEnd (· == '/') (Text.trim b.text.toList) <+: Text.trim b.text.toList :=
      Text.stripEnd_prefix _ _
    have hlong : Text.trim b.text.toList <+: b.text.toList :=
      trim_text h ▸ Text.stripEnd_prefix _ _
    rw [htext] at hshort
    exact hlong.eq_of_length_le hshort.length_le
  · intro htrim
    rw [normalize, htrim, hend, shortened, toList_text, toList_text] at htext
    have hrest := String.toList_inj.mp (List.append_cancel_left (List.append_cancel_left htext))
    exact congrArg (BaseUrl.mk b.scheme b.host) hrest.symm

/-- **The text of a base URL is always read again**, as a base URL with the same scheme and
the same host, whose rest lost the white space and then the slashes at its end. It is the same
base URL if and only if its text does not end in white space. -/
theorem ofJson_toJson (s : String) (b : BaseUrl) (h : parse s = .ok b) :
    ofJson b.toJson = .ok b.shortened ∧ parse b.text = .ok b.shortened ∧
      (ofJson b.toJson = .ok b ↔ ∀ last ∈ b.text.toList.getLast?, isBlank last = false) := by
  obtain ⟨hformed, htext⟩ := parse_eq_ok_iff.mp h
  have hread : parse b.text = .ok b.shortened :=
    parse_eq_ok_iff.mpr ⟨hformed.shortened, normalize_text hformed⟩
  have hjson : ofJson b.toJson = .ok b.shortened := by
    rw [toJson, ofJson, hread]
    rfl
  have hend : stripEnd (· == '/') b.text.toList = b.text.toList := by
    rw [← htext]
    exact List.rdropWhile_idempotent (· == '/') (Text.trim s.toList)
  refine ⟨hjson, hread, ?_⟩
  rw [hjson, Except.ok.injEq, shortened_eq_self_iff hformed hend]

/-- Slashes at the end of a text do no harm. -/
theorem ofJson_toJson_slashes :
    ∃ b, parse " https://h:8/api// " = .ok b ∧ b.text = "https://h:8/api" ∧
      ofJson b.toJson = .ok b := by
  have hparse : parse " https://h:8/api// " = .ok ⟨"https", "h", ":8/api"⟩ := rfl
  have htext : BaseUrl.text ⟨"https", "h", ":8/api"⟩ = "https://h:8/api" := by decide
  have hlast : "https://h:8/api".toList.getLast? = some 'i' := rfl
  refine ⟨_, hparse, htext, (ofJson_toJson _ _ hparse).2.2.mpr ?_⟩
  intro last hmem
  rw [htext, hlast] at hmem
  obtain rfl := Option.some.inj hmem
  decide

/-- White space before a slash at the end becomes white space at the end, and is lost when the
text is read again. -/
theorem blank_before_slash_lost :
    ∃ b c, parse "https://h/x /" = .ok b ∧ b.text = "https://h/x " ∧
      ofJson b.toJson = .ok c ∧ c.text = "https://h/x" ∧ c ≠ b :=
  ⟨⟨"https", "h", "/x "⟩, ⟨"https", "h", "/x"⟩, rfl, by decide, rfl, by decide, by decide⟩

end BaseUrl

end LayeredFetch
