import Mathlib.Data.List.DropRight
import LayeredFetch.Text.Pieces

/-!
Parts of a text, and what trimming does to them.

* **Pieces** are what the library's `List.splitOnP` gives (`pieces_eq_splitOnP`).
* **Stripping** leaves what stands around a character that stays
  (`stripBoth_append_cons`), so it makes no difference whether a text is trimmed before it is
  cut at such a character and its parts are trimmed (`splitOnce_trim`, `trim_dropWhile`,
  `trim_stripEnd`).
* **What is left.** `StripsTo` says in terms of the text what stripping it on both sides means;
  `stripsTo_iff`: that is what `stripBoth` gives.
-/

namespace LayeredFetch.Text

variable {p : Char → Bool} {c : Char} {cs ds core before after : List Char}

/-! ### Pieces -/

/-- The pieces of a text are what it is split into. -/
lemma pieces_eq_splitOnP (p : Char → Bool) (cs : List Char) : pieces p cs = cs.splitOnP p := by
  induction cs with
  | nil => rfl
  | cons c cs ih =>
      rw [List.splitOnP_cons_eq_if_modifyHead, ← ih, pieces, pieces, cut]
      dsimp only
      split <;> rfl

/-- A text is cut at a single character where that comes first. -/
lemma splitOnce_singleton_eq_some_iff :
    splitOnce [c] cs = some (before, after) ↔ cs = before ++ c :: after ∧ c ∉ before := by
  have hcut : ∀ b a : List Char, c ∉ b → splitOnce [c] (b ++ c :: a) = some (b, a) := by
    intro b a hb
    have hfound : splitOnce [c] (b ++ [c] ++ a) = some (b, a) :=
      splitOnce_append (fun d hd => ne_of_mem_of_not_mem hd hb) a
    rwa [List.append_assoc, List.singleton_append] at hfound
  constructor
  · intro h
    have htext := splitOnce_eq_append h
    rw [List.append_assoc, List.singleton_append] at htext
    have hmem : c ∈ cs := by simp [htext]
    obtain ⟨b, a, hsplit, hb⟩ := List.eq_append_cons_of_mem hmem
    rw [hsplit, hcut b a hb] at h
    obtain ⟨rfl, rfl⟩ := Prod.mk.injEq .. ▸ Option.some.inj h
    exact ⟨hsplit, hb⟩
  · rintro ⟨rfl, hb⟩
    exact hcut before after hb

/-! ### Stripping -/

/-- What stands before a character that is not stripped stays. -/
lemma stripEnd_append_cons {c : Char} (hc : p c = false) (cs ds : List Char) :
    stripEnd p (cs ++ c :: ds) = cs ++ c :: stripEnd p ds := by
  induction ds using List.reverseRecOn with
  | nil => exact List.rdropWhile_concat_neg p cs c (by simp [hc])
  | append_singleton ds d ih =>
      have hassoc : cs ++ c :: (ds ++ [d]) = cs ++ c :: ds ++ [d] := by simp
      by_cases hd : p d = true
      · have hlong : stripEnd p (cs ++ c :: ds ++ [d]) = stripEnd p (cs ++ c :: ds) :=
          List.rdropWhile_concat_pos p _ d hd
        have hshort : stripEnd p (ds ++ [d]) = stripEnd p ds :=
          List.rdropWhile_concat_pos p ds d hd
        rw [hassoc, hlong, hshort, ih]
      · have hlong : stripEnd p (cs ++ c :: ds ++ [d]) = cs ++ c :: ds ++ [d] :=
          List.rdropWhile_concat_neg p _ d hd
        have hshort : stripEnd p (ds ++ [d]) = ds ++ [d] := List.rdropWhile_concat_neg p ds d hd
        rw [hassoc, hlong, hshort, hassoc]

/-- Stripping changes a text if and only if it ends in a character that is stripped. -/
lemma stripEnd_eq_self_iff : stripEnd p cs = cs ↔ ∀ c ∈ cs.getLast?, p c = false := by
  refine (List.rdropWhile_eq_self_iff (p := p) (l := cs)).trans ?_
  constructor
  · intro h c hc
    obtain ⟨hne, rfl⟩ := List.mem_getLast?_eq_getLast hc
    exact eq_false_of_ne_true (h hne)
  · intro h hne hlast
    rw [h _ (List.getLast?_eq_some_getLast hne)] at hlast
    cases hlast

/-- What is stripped is a beginning of the text. -/
lemma stripEnd_prefix (p : Char → Bool) (cs : List Char) : stripEnd p cs <+: cs :=
  List.rdropWhile_prefix p cs

/-- Stripping the end leaves what stands before a run of characters in `p`, if that does not end
in one. -/
lemma stripEnd_eq_iff :
    stripEnd p cs = core ↔
      ∃ run, cs = core ++ run ∧ (∀ c ∈ run, p c = true) ∧ ∀ c ∈ core.getLast?, p c = false := by
  constructor
  · rintro rfl
    obtain ⟨run, hrun, hall⟩ := exists_eq_stripEnd_append p cs
    exact ⟨run, hrun, hall, stripEnd_eq_self_iff.mp (List.rdropWhile_idempotent p cs)⟩
  · rintro ⟨run, rfl, hall, hlast⟩
    have hnil : stripEnd p run = [] := List.rdropWhile_eq_nil_iff.mpr hall
    rcases List.eq_nil_or_concat core with rfl | ⟨init, d, rfl⟩
    · exact hnil
    · have hd : p d = false := hlast d (by simp)
      rw [List.concat_eq_append, List.append_assoc, List.singleton_append,
        stripEnd_append_cons hd, hnil]

/-- Around a character that stays, only the beginning of what stands before it and the end of
what comes after it are stripped. -/
lemma stripBoth_append_cons (hc : p c = false) (before after : List Char) :
    stripBoth p (before ++ c :: after) = before.dropWhile p ++ c :: stripEnd p after := by
  have hbegin : (before ++ c :: after).dropWhile p = before.dropWhile p ++ c :: after := by
    rw [List.dropWhile_append]
    split
    · next hnil =>
        rw [List.isEmpty_iff.mp hnil, List.dropWhile_cons_of_neg (by simp [hc]), List.nil_append]
    · rfl
  rw [stripBoth, hbegin, stripEnd_append_cons hc]

/-! ### Trimming before cutting -/

/-- The beginning may be stripped before. -/
lemma trim_dropWhile (cs : List Char) : trim (cs.dropWhile isBlank) = trim cs := by
  rw [trim, stripBoth, List.dropWhile_idempotent, trim, stripBoth]

/-- So may the end. -/
lemma trim_stripEnd (cs : List Char) : trim (stripEnd isBlank cs) = trim cs := by
  by_cases h : ∃ c ∈ cs, isBlank c = false
  · obtain ⟨c, hmem, hc⟩ := h
    obtain ⟨before, after, rfl⟩ := List.append_of_mem hmem
    have htwice : stripEnd isBlank (stripEnd isBlank after) = stripEnd isBlank after :=
      List.rdropWhile_idempotent isBlank after
    rw [stripEnd_append_cons hc, trim, stripBoth_append_cons hc, htwice, trim,
      stripBoth_append_cons hc]
  · -- nothing is left of white space, in whichever order it is stripped
    have hblank : ∀ c ∈ cs, isBlank c = true := fun c hc => by
      simpa using fun hno => h ⟨c, hc, hno⟩
    have hend : stripEnd isBlank cs = [] := List.rdropWhile_eq_nil_iff.mpr hblank
    have hbegin : cs.dropWhile isBlank = [] := List.dropWhile_eq_nil_iff.mpr hblank
    rw [hend, trim, trim, stripBoth, stripBoth, hbegin]
    rfl

/-- **A trimmed text is cut where the text itself is.** -/
lemma splitOnce_trim (hc : isBlank c = false) (cs : List Char) :
    splitOnce [c] (trim cs) =
      (splitOnce [c] cs).map fun (before, after) =>
        (before.dropWhile isBlank, stripEnd isBlank after) := by
  by_cases hmem : c ∈ cs
  · obtain ⟨before, after, hsplit, hbefore⟩ := List.eq_append_cons_of_mem hmem
    have hrest : c ∉ before.dropWhile isBlank := fun h =>
      hbefore ((List.dropWhile_suffix isBlank).subset h)
    have hcs : splitOnce [c] cs = some (before, after) :=
      splitOnce_singleton_eq_some_iff.mpr ⟨hsplit, hbefore⟩
    have htrim : splitOnce [c] (trim cs) =
        some (before.dropWhile isBlank, stripEnd isBlank after) :=
      splitOnce_singleton_eq_some_iff.mpr
        ⟨by rw [hsplit, trim, stripBoth_append_cons hc], hrest⟩
    rw [hcs, htrim]
    rfl
  · have hnone : ∀ ds : List Char, c ∉ ds → splitOnce [c] ds = none := by
      intro ds hds
      refine Option.eq_none_iff_forall_ne_some.mpr fun ⟨before, after⟩ h => hds ?_
      rw [(splitOnce_singleton_eq_some_iff.mp h).1]
      simp
    have hpart : trim cs <:+: cs := stripBoth_infix isBlank cs
    have hrest : c ∉ trim cs := fun h => hmem (hpart.subset h)
    rw [hnone cs hmem, hnone (trim cs) hrest]
    rfl

/-! ### What is left -/

/-- A text is `core` between runs of characters in `p`, and `core` neither begins nor ends in
one. -/
def StripsTo (p : Char → Bool) (cs core : List Char) : Prop :=
  ∃ before after, cs = before ++ core ++ after ∧
    (∀ c ∈ before, p c = true) ∧ (∀ c ∈ after, p c = true) ∧
    (∀ c ∈ core.head?, p c = false) ∧ ∀ c ∈ core.getLast?, p c = false

/-- Stripping leaves such a part of the text. -/
lemma stripsTo_stripBoth (p : Char → Bool) (cs : List Char) : StripsTo p cs (stripBoth p cs) := by
  obtain ⟨run, hrun, hend⟩ := exists_eq_stripEnd_append p (cs.dropWhile p)
  refine ⟨cs.takeWhile p, run, ?_, fun c hc => ?_, hend, fun c hc => ?_, ?_⟩
  · rw [List.append_assoc, stripBoth, ← hrun, List.takeWhile_append_dropWhile]
  · exact List.all_eq_true.mp List.all_takeWhile c hc
  · -- what is left begins where the text does, once its beginning is stripped
    have hbegin : c ∈ (cs.dropWhile p).head? := by
      rw [hrun, List.head?_append, ← stripBoth, Option.mem_def.mp hc]
      rfl
    have hnot := List.head?_dropWhile_not p cs
    rw [Option.mem_def.mp hbegin] at hnot
    exact eq_false_of_ne_true (by simpa using hnot)
  · exact stripEnd_eq_self_iff.mp (List.rdropWhile_idempotent p (cs.dropWhile p))

/-- **It is the only one.** -/
lemma stripsTo_iff : StripsTo p cs core ↔ stripBoth p cs = core := by
  constructor
  · rintro ⟨before, after, rfl, hbefore, hafter, hhead, hlast⟩
    have hnil : stripEnd p after = [] := List.rdropWhile_eq_nil_iff.mpr hafter
    rw [List.append_assoc, stripBoth, List.dropWhile_append_of_pos hbefore]
    cases core with
    | nil =>
        rw [List.nil_append, List.dropWhile_eq_nil_iff.mpr hafter]
        rfl
    | cons c rest =>
        rw [List.cons_append, List.dropWhile_cons_of_neg (by simp [hhead c rfl])]
        obtain ⟨begin, d, hsplit⟩ := List.eq_nil_or_concat (c :: rest) |>.resolve_left (by simp)
        rw [← List.cons_append, hsplit, List.concat_eq_append, List.append_assoc,
          List.singleton_append, stripEnd_append_cons (hlast d (by simp [hsplit])), hnil]
  · rintro rfl
    exact stripsTo_stripBoth p cs

end LayeredFetch.Text
