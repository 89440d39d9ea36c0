import LayeredFetch.Proofs.Config.Rereading

/-!
The texts that write a base URL.

* **What counts of a text.** `BaseUrl.Core s t` says that `t` is left of `s` without the white
  space around it, and then without the slashes at its end; `core_iff`: normalizing gives it.
* **The grammar.** `BaseUrl.Split t scheme host rest` says in terms of the text `t` what a base
  URL is made of. `split_iff`: that is to be the text of a well-formed base URL with these
  parts.
* `grammar_decides_parsing`: reading succeeds exactly on the texts of the grammar, and gives their
  one decomposition; it fails on all others with the text that it could not read.
-/

namespace LayeredFetch.BaseUrl

open Text (isBlank stripEnd StripsTo)

variable {s t scheme host rest : String}

/-! ### What counts of a text -/

/-- Between the white space around a text there is `core`, and then nothing but slashes; and
`core` does not end in a slash. -/
def Core (s core : String) : Prop :=
  ∃ slashes, StripsTo isBlank s.toList (core.toList ++ slashes) ∧
    (∀ c ∈ slashes, c = '/') ∧ core.toList.getLast? ≠ some '/'

/-- There is one such text. -/
lemma core_iff : Core s t ↔ t = String.ofList (normalize s) := by
  have hlast : t.toList.getLast? ≠ some '/' ↔
      ∀ c ∈ t.toList.getLast?, (c == '/') = false := by
    constructor
    · rintro h c hc
      simp only [beq_eq_false_iff_ne]
      rintro rfl
      exact h hc
    · intro h hslash
      simpa using h '/' hslash
  calc Core s t
      ↔ ∃ slashes, Text.trim s.toList = t.toList ++ slashes ∧
          (∀ c ∈ slashes, (c == '/') = true) ∧
          ∀ c ∈ t.toList.getLast?, (c == '/') = false := by
        simp only [Core, Text.stripsTo_iff, hlast, beq_iff_eq]
        rfl
    _ ↔ normalize s = t.toList := Text.stripEnd_eq_iff.symm
    _ ↔ t = String.ofList (normalize s) := by
        rw [← String.toList_inj, String.toList_ofList]
        exact eq_comm

/-! ### The grammar -/

/-- A text is a scheme of letters, `://`, a host in which there is no white space, and a rest
that is empty or begins with one of the characters that end a host. -/
structure Split (t scheme host rest : String) : Prop where
  text_eq : t = scheme ++ "://" ++ host ++ rest
  scheme_ne : scheme ≠ ""
  scheme_alpha : ∀ c ∈ scheme.toList, c.isAlpha = true
  host_ne : host ≠ ""
  host_plain : ∀ c ∈ host.toList, c ∉ [':', '/', '?', '#'] ∧ isBlank c = false
  rest_begin : rest = "" ∨ ∃ c cs, rest.toList = c :: cs ∧ c ∈ [':', '/', '?', '#']

/-- The characters that end a host. -/
lemma endsHost_iff {c : Char} : endsHost c = true ↔ c ∈ [':', '/', '?', '#'] := by
  simp [endsHost, or_assoc]

/-- To be split so is to be the text of a well-formed base URL. -/
lemma split_iff :
    Split t scheme host rest ↔
      WellFormed ⟨scheme, host, rest⟩ ∧ t = text ⟨scheme, host, rest⟩ := by
  have hne : ∀ u : String, u ≠ "" ↔ u.toList ≠ [] := fun u => by
    rw [Ne, ← String.toList_inj]
    rfl
  have hplain : ∀ c, c ∉ [':', '/', '?', '#'] ↔ endsHost c = false := fun c => by
    rw [← endsHost_iff, Bool.not_eq_true]
  constructor
  · rintro ⟨htext, hscheme, halpha, hhost, hchars, hrest⟩
    refine ⟨⟨(hne scheme).mp hscheme, halpha, (hne host).mp hhost,
      fun c hc => (hplain c).mp (hchars c hc).1, fun c hc => (hchars c hc).2, ?_⟩, htext⟩
    intro c hc
    rcases hrest with rfl | ⟨d, cs, hd, hmem⟩
    · cases hc
    · obtain rfl : d = c := by simpa [hd] using hc
      exact endsHost_iff.mpr hmem
  · rintro ⟨h, htext⟩
    refine ⟨htext, (hne scheme).mpr h.scheme_ne, h.scheme_alpha, (hne host).mpr h.host_ne,
      fun c hc => ⟨(hplain c).mpr (h.host_inner c hc), h.host_solid c hc⟩, ?_⟩
    by_cases hrest : rest = ""
    · exact .inl hrest
    · obtain ⟨c, cs, hcs⟩ := List.exists_cons_of_ne_nil ((hne rest).mp hrest)
      exact .inr ⟨c, cs, hcs, endsHost_iff.mp (h.rest_begin c (by simp [hcs]))⟩

/-- A well-formed base URL is told by its text. -/
lemma WellFormed.eq_of_text_eq {b c : BaseUrl} (hb : b.WellFormed) (hc : c.WellFormed)
    (htext : b.text = c.text) : b = c := by
  have hparts := hb.split?_text
  rw [htext, hc.split?_text, Option.some.injEq, Prod.mk.injEq] at hparts
  obtain ⟨hscheme, hafter⟩ := hparts
  -- the host ends where the first character that ends it stands
  have hhost : b.host.toList = c.host.toList := by rw [← hb.cut.1, ← hafter, hc.cut.1]
  have hrest : b.rest.toList = c.rest.toList := by rw [← hb.cut.2, ← hafter, hc.cut.2]
  rw [String.toList_inj] at hscheme hhost hrest
  cases b
  cases c
  rw [mk.injEq]
  exact ⟨hscheme.symm, hhost, hrest⟩

/-- **A text has one decomposition.** -/
lemma Split.unique {b c : BaseUrl} (hb : Split t b.scheme b.host b.rest)
    (hc : Split t c.scheme c.host c.rest) : b = c := by
  obtain ⟨hformed, htext⟩ := split_iff.mp hb
  obtain ⟨hformed', htext'⟩ := split_iff.mp hc
  exact hformed.eq_of_text_eq hformed' (htext.symm.trans htext')

/-! ### Reading -/

/-- Reading gives the decomposition of what counts of a text. -/
lemma parse_eq_ok_iff_split {b : BaseUrl} :
    parse s = .ok b ↔ Split (String.ofList (normalize s)) b.scheme b.host b.rest := by
  rw [parse_eq_ok_iff, split_iff, ← String.toList_inj, String.toList_ofList]

/-- There is one complaint about a text. -/
lemma eq_of_parse_eq_error {e : ConfigError} (h : parse s = .error e) :
    e = .invalidBaseUrl (String.ofList (normalize s)) := by
  rw [parse] at h
  dsimp only at h
  split at h
  · exact (Except.error.inj h).symm
  · split at h
    · exact (Except.error.inj h).symm
    · cases h

/-- **The texts that write a base URL.** Of a text only its core counts, and it has one. The
text writes a base URL if and only if its core is a scheme of letters, `://`, a host without
white space, and a rest that begins where the host ends; it can be split so in one way, which is
the scheme and the host of the base URL, and the core is the text of it. Every other text is
refused, with its core in the complaint. -/
theorem grammar_decides_parsing (s : String) :
    ∃ t, (∀ t', Core s t' ↔ t' = t) ∧
      (∀ b, parse s = .ok b ↔ Split t b.scheme b.host b.rest) ∧
      (∀ b, parse s = .ok b → b.text = t) ∧
      (∀ b c : BaseUrl, Split t b.scheme b.host b.rest → Split t c.scheme c.host c.rest → b = c) ∧
      ∀ e, parse s = .error e ↔
        e = .invalidBaseUrl t ∧ ¬ ∃ scheme host rest, Split t scheme host rest := by
  refine ⟨String.ofList (normalize s), fun t' => core_iff, fun b => parse_eq_ok_iff_split,
    fun b hb => ?_, fun b c hb hc => hb.unique hc, fun e => ⟨fun he => ?_, ?_⟩⟩
  · rw [(parse_eq_ok_iff.mp hb).2, String.ofList_toList]
  · refine ⟨eq_of_parse_eq_error he, ?_⟩
    rintro ⟨scheme, host, rest, hsplit⟩
    have hok : parse s = .ok ⟨scheme, host, rest⟩ := parse_eq_ok_iff_split.mpr hsplit
    rw [he] at hok
    cases hok
  · rintro ⟨rfl, hnone⟩
    cases hparse : parse s with
    | ok b => exact absurd ⟨_, _, _, parse_eq_ok_iff_split.mp hparse⟩ hnone
    | error e => rw [eq_of_parse_eq_error hparse]

/-- A host is not white space, and slashes at the end of a text are not its host: three slashes
leave nothing but a scheme with its colon. -/
theorem grammar_decides_parsing_slashes :
    (∃ b, parse " Https://h:8/a b// " = .ok b ∧ b.scheme = "Https" ∧ b.host = "h" ∧
      b.text = "Https://h:8/a b") ∧
    parse "https:///" = .error (.invalidBaseUrl "https:") := by
  constructor
  · obtain ⟨t, hcore, hparse, htext, -⟩ := grammar_decides_parsing " Https://h:8/a b// "
    obtain rfl : "Https://h:8/a b" = t := by
      refine (hcore _).mp ⟨['/', '/'], Text.stripsTo_iff.mpr ?_, by simp, by decide⟩
      rfl
    have hok : parse " Https://h:8/a b// " = .ok ⟨"Https", "h", ":8/a b"⟩ :=
      (hparse _).mpr ⟨by decide, by decide, by simp, by decide,
        List.forall_mem_singleton.mpr (by decide), .inr ⟨':', "8/a b".toList, rfl, by decide⟩⟩
    exact ⟨_, hok, rfl, rfl, htext _ hok⟩
  · obtain ⟨t, hcore, -, -, -, herror⟩ := grammar_decides_parsing "https:///"
    obtain rfl : "https:" = t := by
      refine (hcore _).mp ⟨['/', '/', '/'], Text.stripsTo_iff.mpr ?_, by simp, by decide⟩
      rfl
    refine (herror _).mpr ⟨rfl, ?_⟩
    -- there is no slash in what is left
    rintro ⟨scheme, host, rest, hsplit⟩
    have hslash : '/' ∈ "https:".toList := by
      rw [hsplit.text_eq]
      simp
    revert hslash
    decide

end LayeredFetch.BaseUrl
