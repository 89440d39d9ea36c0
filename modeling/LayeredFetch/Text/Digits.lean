/-!
Decimal digits and the integers they write.
-/

namespace LayeredFetch.Text

/-- The value of a digit. -/
def digitValue (c : Char) : Nat := c.toNat - '0'.toNat

/-- The integer written by digits, the most significant one first. -/
def natOfDigits (cs : List Char) : Nat := cs.foldl (fun n c => 10 * n + digitValue c) 0

end LayeredFetch.Text
