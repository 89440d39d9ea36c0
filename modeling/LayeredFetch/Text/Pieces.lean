import LayeredFetch.Text.Blank

/-!
Cutting a text at separators.

* **All separators.** `cut p` gives the piece before the first separator and the
  pieces after it, so there is always a first piece; `pieces p` lists them, and
  `words` are the non-empty pieces between blanks.
* **The first separator.** `splitOnce sep` gives what stands before and after
  the first occurrence of the text `sep`; `splitOnce_eq_append` says that
  nothing else is lost, and `splitOnce_append` where it certainly cuts.
-/

namespace LayeredFetch.Text

/-! ### At every separator -/

/-- The piece before the first character in `p`, and the pieces after it. -/
def cut (p : Char → Bool) : List Char → List Char × List (List Char)
  | [] => ([], [])
  | c :: cs =>
      let (first, later) := cut p cs
      if p c then ([], first :: later) else (c :: first, later)

/-- The pieces between the characters in `p`; one more than there are such
characters. -/
def pieces (p : Char → Bool) (cs : List Char) : List (List Char) :=
  let (first, later) := cut p cs
  first :: later

/-- The longest runs of characters that are not blank. -/
def words (cs : List Char) : List (List Char) :=
  (pieces isBlank cs).filter (!·.isEmpty)

/-- A text without separators is one piece. -/
theorem cut_of_forall_not {p : Char → Bool} {cs : List Char} (h : ∀ c ∈ cs, p c = false) :
    cut p cs = (cs, []) := by
  induction cs with
  | nil => rfl
  | cons c cs ih =>
      have hc : p c = false := h c List.mem_cons_self
      have hcs := ih fun d hd => h d (List.mem_cons_of_mem c hd)
      simp [cut, hc, hcs]

/-- The pieces of a text are those before a separator and those after it. -/
theorem pieces_append_cons {p : Char → Bool} {c : Char} (h : p c = true)
    (before after : List Char) :
    pieces p (before ++ c :: after) = pieces p before ++ pieces p after := by
  induction before with
  | nil => simp [pieces, cut, h]
  | cons x before ih =>
      obtain ⟨hfirst, hlater⟩ := List.cons.inj ih
      by_cases hx : p x <;> simp_all [pieces, cut]

/-- The first piece is what stands before the first separator. -/
theorem cut_append_cons {p : Char → Bool} {c : Char} {before : List Char} (h : p c = true)
    (hbefore : ∀ d ∈ before, p d = false) (after : List Char) :
    cut p (before ++ c :: after) = (before, pieces p after) := by
  have hpieces := pieces_append_cons h before after
  rw [pieces, pieces, cut_of_forall_not hbefore] at hpieces
  obtain ⟨hfirst, hlater⟩ := List.cons.inj hpieces
  exact Prod.ext hfirst hlater

/-- The first piece is where the text begins. -/
theorem cut_prefix (p : Char → Bool) (cs : List Char) : (cut p cs).1 <+: cs := by
  induction cs with
  | nil => exact List.prefix_rfl
  | cons c cs ih =>
      rw [cut]
      dsimp only
      split
      · exact List.nil_prefix
      · exact List.cons_prefix_cons.2 ⟨rfl, ih⟩

/-- A piece is a part of the text without separators. -/
theorem infix_of_mem_pieces {p : Char → Bool} {cs piece : List Char} (h : piece ∈ pieces p cs) :
    piece <:+: cs ∧ ∀ d ∈ piece, p d = false := by
  induction cs generalizing piece with
  | nil =>
      rw [List.mem_singleton.1 h]
      exact ⟨List.infix_rfl, fun d hd => absurd hd List.not_mem_nil⟩
  | cons c cs ih =>
      have hfirst := ih (List.mem_cons_self (a := (cut p cs).1) (l := (cut p cs).2))
      rw [pieces, cut] at h
      dsimp only at h
      split at h
      · next hc =>
          rcases List.mem_cons.1 h with rfl | hlater
          · exact ⟨List.nil_infix, fun d hd => absurd hd List.not_mem_nil⟩
          · obtain ⟨hpart, hfree⟩ := ih hlater
            exact ⟨List.infix_cons hpart, hfree⟩
      · next hc =>
          rcases List.mem_cons.1 h with rfl | hlater
          · refine ⟨(List.cons_prefix_cons.2 ⟨rfl, cut_prefix p cs⟩).isInfix, fun d hd => ?_⟩
            rcases List.mem_cons.1 hd with rfl | hd
            · exact eq_false_of_ne_true hc
            · exact hfirst.2 d hd
          · obtain ⟨hpart, hfree⟩ := ih (List.mem_cons_of_mem _ hlater)
            exact ⟨List.infix_cons hpart, hfree⟩

/-! ### At the first separator -/

/-- What stands before and after the first occurrence of `sep`, if there is one. -/
def splitOnce (sep : List Char) : List Char → Option (List Char × List Char)
  | [] => if sep.isEmpty then some ([], []) else none
  | c :: cs =>
      if sep.isPrefixOf (c :: cs) then some ([], (c :: cs).drop sep.length)
      else (splitOnce sep cs).map fun (before, after) => (c :: before, after)

/-- The two parts with the separator between them are the text. -/
theorem splitOnce_eq_append {sep cs before after : List Char}
    (h : splitOnce sep cs = some (before, after)) : cs = before ++ sep ++ after := by
  induction cs generalizing before with
  | nil =>
      unfold splitOnce at h
      split at h
      · next hsep => simp_all
      · simp at h
  | cons c cs ih =>
      unfold splitOnce at h
      split at h
      · next hsep =>
          obtain ⟨rest, hrest⟩ := List.isPrefixOf_iff_prefix.1 hsep
          injection h with h
          obtain ⟨rfl, rfl⟩ := Prod.mk.injEq .. ▸ h
          simp [← hrest]
      · obtain ⟨⟨b, a⟩, hba, hab⟩ := Option.map_eq_some_iff.1 h
        obtain ⟨rfl, rfl⟩ := Prod.mk.injEq .. ▸ hab
        simp [ih hba]

/-- A separator is found where its first character comes first. -/
theorem splitOnce_append {c : Char} {sep before : List Char} (h : ∀ d ∈ before, d ≠ c)
    (after : List Char) :
    splitOnce (c :: sep) (before ++ (c :: sep) ++ after) = some (before, after) := by
  induction before with
  | nil => simp [splitOnce]
  | cons d before ih =>
      have hd : (c == d) = false := by simpa using (h d List.mem_cons_self).symm
      have hrest := ih fun x hx => h x (List.mem_cons_of_mem d hx)
      rw [List.cons_append, List.cons_append, splitOnce, List.isPrefixOf, hd, Bool.false_and,
        if_neg Bool.false_ne_true, hrest]
      rfl

end LayeredFetch.Text
