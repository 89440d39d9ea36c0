/-!
Texts compared without regard to ASCII case.

Two texts match when `fold`, the ASCII lower-cased characters, sends them to the
same list; so matching is an equivalence, and `fold` is the key under which the
spellings of one name meet.
-/

namespace LayeredFetch.Text

/-- The characters of a text, with ASCII capitals lower-cased. -/
def fold (s : String) : List Char := s.toList.map Char.toLower

/-- Whether two texts differ at most in ASCII case. -/
def sameFold (s t : String) : Bool := fold s == fold t

theorem sameFold_iff {s t : String} : sameFold s t = true ↔ fold s = fold t := by
  simp [sameFold]

theorem sameFold_self (s : String) : sameFold s s = true := by
  simp [sameFold]

theorem sameFold_comm (s t : String) : sameFold s t = sameFold t s := by
  rw [sameFold, sameFold, Bool.beq_comm]

/-- Texts that match each other match the same texts. -/
theorem sameFold_congr {s t : String} (h : sameFold s t = true) (u : String) :
    sameFold s u = sameFold t u := by
  simp [sameFold, sameFold_iff.1 h]

/-- The text with its ASCII capitals lower-cased. -/
def lowered (s : String) : String := String.ofList (fold s)

end LayeredFetch.Text
