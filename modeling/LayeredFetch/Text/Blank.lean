/-!
Blank characters and the trimming of texts.

A character is blank when it has the Unicode property `White_Space`. A text is
handled as its list of characters.

* **The class.** `blankRanges` lists the property.
* **Trimming.** `stripEnd p` removes the longest run of characters in `p` at the
  end, `stripBoth p` at both ends, and `trim` is `stripBoth isBlank`.
-/

namespace LayeredFetch.Text

/-! ### The class of blank characters -/

/-- The code points with the property `White_Space`, as inclusive ranges in
increasing order. -/
def blankRanges : List (Nat × Nat) :=
  [(0x0009, 0x000D), (0x0020, 0x0020), (0x0085, 0x0085), (0x00A0, 0x00A0),
   (0x1680, 0x1680), (0x2000, 0x200A), (0x2028, 0x2029), (0x202F, 0x202F),
   (0x205F, 0x205F), (0x3000, 0x3000)]

/-- Whether a character is white space. -/
def isBlank (c : Char) : Bool :=
  blankRanges.any fun (lo, hi) => decide (lo ≤ c.toNat) && decide (c.toNat ≤ hi)

/-! ### Trimming -/

/-- The text without the longest run of characters in `p` at its end. -/
def stripEnd (p : Char → Bool) (cs : List Char) : List Char :=
  (cs.reverse.dropWhile p).reverse

/-- The text without the longest runs of characters in `p` at both ends. -/
def stripBoth (p : Char → Bool) (cs : List Char) : List Char :=
  stripEnd p (cs.dropWhile p)

/-- The text without the white space around it. -/
def trim (cs : List Char) : List Char := stripBoth isBlank cs

/-- What is stripped from the end is made of characters in `p`. -/
theorem exists_eq_stripEnd_append (p : Char → Bool) (cs : List Char) :
    ∃ run, cs = stripEnd p cs ++ run ∧ ∀ c ∈ run, p c = true := by
  refine ⟨(cs.reverse.takeWhile p).reverse, ?_, fun c hc => ?_⟩
  · rw [stripEnd, ← List.reverse_append, List.takeWhile_append_dropWhile, List.reverse_reverse]
  · exact List.all_eq_true.1 List.all_takeWhile c (List.mem_reverse.1 hc)

/-- What is stripped at the beginning does not matter. -/
theorem stripBoth_cons {p : Char → Bool} {c : Char} (h : p c = true) (cs : List Char) :
    stripBoth p (c :: cs) = stripBoth p cs := by
  rw [stripBoth, stripBoth, List.dropWhile_cons_of_pos h]

/-- Nothing is stripped from a text that neither begins nor ends in `p`. -/
theorem stripBoth_eq_self {p : Char → Bool} {c d : Char} (hc : p c = false) (hd : p d = false)
    (cs : List Char) : stripBoth p (c :: (cs ++ [d])) = c :: (cs ++ [d]) := by
  have hend : (c :: (cs ++ [d])).reverse = d :: (c :: cs).reverse := by simp
  rw [stripBoth, List.dropWhile_cons_of_neg (by simp [hc]), stripEnd, hend,
    List.dropWhile_cons_of_neg (by simp [hd]), ← hend, List.reverse_reverse]

/-- What is left is a part of the text. -/
theorem stripBoth_infix (p : Char → Bool) (cs : List Char) : stripBoth p cs <:+: cs := by
  obtain ⟨run, hrun, -⟩ := exists_eq_stripEnd_append p (cs.dropWhile p)
  have hbegin : stripBoth p cs <+: cs.dropWhile p := ⟨run, hrun.symm⟩
  exact hbegin.isInfix.trans (List.dropWhile_suffix p).isInfix

end LayeredFetch.Text
