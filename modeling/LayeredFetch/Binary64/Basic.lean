/-!
Finite binary floating-point numbers of 64 bits, in exact arithmetic.

A number is a sign, a significand and an exponent of two. `ofRatio?` rounds a
fraction to the nearest such number, a tie going to the even significand, and
gives nothing when the nearest one would exceed the largest; products and
quotients are rounded fractions. There is no infinity and no NaN: an operation
that would lead there gives nothing.
-/

namespace LayeredFetch

/-- The number `± significand · 2 ^ exponent`. The significand has 53 bits, or
fewer at the least exponent `-1074`. -/
structure Binary64 where
  negative : Bool
  significand : Nat
  exponent : Int
deriving DecidableEq, Repr

namespace Binary64

/-- The least exponent of two. -/
def minExponent : Int := -1074

/-- The greatest exponent of two. -/
def maxExponent : Int := 971

/-- Zero, with the positive sign. -/
def zero : Binary64 := ⟨false, 0, minExponent⟩

instance : Inhabited Binary64 := ⟨zero⟩

/-- Whether the number is zero, of either sign. -/
def isZero (x : Binary64) : Bool := x.significand == 0

/-- The number with the other sign. -/
def neg (x : Binary64) : Binary64 := { x with negative := !x.negative }

/-- Equality of values: the two zeros are equal. -/
def same (x y : Binary64) : Bool := x == y || (x.isZero && y.isZero)

/-! ### Rounding -/

/-- The fraction `num / den` divided by `2 ^ e`. -/
def overPowTwo (num den : Nat) (e : Int) : Nat × Nat :=
  (num * Nat.pow 2 (-e).toNat, den * Nat.pow 2 e.toNat)

/-- The integer nearest to `num / den`, the even one of two that are equally
near. -/
def nearest (num den : Nat) : Nat :=
  let floor := num / den
  let twice := 2 * (num % den)
  if den < twice || (twice == den && floor % 2 == 1) then floor + 1 else floor

/-- The nearest number to `num / den`, for a positive `den`. The exponent is
guessed from the lengths in bits, which is right or one too small. -/
def ofRatio? (num den : Nat) : Option Binary64 :=
  if num = 0 then some zero
  else
    let guess := max ((num.log2 : Int) - den.log2 - 53) minExponent
    let scaled := overPowTwo num den guess
    let e := if scaled.1 / scaled.2 < Nat.pow 2 53 then guess else guess + 1
    let scaled := overPowTwo num den e
    let m := nearest scaled.1 scaled.2
    let (m, e) := if m = Nat.pow 2 53 then (Nat.pow 2 52, e + 1) else (m, e)
    if maxExponent < e then none else some ⟨false, m, e⟩

/-! ### The size of a number as a fraction -/

/-- The numerator of the number without its sign. -/
def num (x : Binary64) : Nat := x.significand * Nat.pow 2 x.exponent.toNat

/-- The denominator of the number, a power of two. -/
def den (x : Binary64) : Nat := Nat.pow 2 (-x.exponent).toNat

/-- The rounded product of the sizes of two numbers. -/
def mul? (x y : Binary64) : Option Binary64 := ofRatio? (x.num * y.num) (x.den * y.den)

/-- The rounded quotient of the sizes of two numbers, the second not zero. -/
def div? (x y : Binary64) : Option Binary64 := ofRatio? (x.num * y.den) (x.den * y.num)

/-! ### Decimal scaling -/

/-- The number nearest to `10 ^ k`; there is one up to `10 ^ 308`. -/
def powTen? (k : Nat) : Option Binary64 := ofRatio? (Nat.pow 10 k) 1

/-- The greatest power of ten that is a finite number. -/
def maxPowTen : Nat := 308

/-- A number divided by `10 ^ k`, in steps of at most `10 ^ 308`, with a
rounding at each step. -/
def scaleDown? (x : Binary64) (k : Nat) : Option Binary64 :=
  if k ≤ maxPowTen then do x.div? (← powTen? k)
  else if x.isZero then some x
  else do scaleDown? (← x.div? (← powTen? maxPowTen)) (k - maxPowTen)
termination_by k
decreasing_by simp only [maxPowTen] at *; omega

/-- A number multiplied by `10 ^ k`, with one rounding. -/
def scaleUp? (x : Binary64) (k : Nat) : Option Binary64 :=
  if x.isZero then some x
  else if k ≤ maxPowTen then do x.mul? (← powTen? k)
  else none

/-- The value of a decimal: `digits` is rounded first, and then scaled by
`10 ^ e`. The result may differ from the nearest number in its last bits. -/
def ofDecimal? (digits : Nat) (e : Int) : Option Binary64 := do
  let x ← ofRatio? digits 1
  if 0 ≤ e then x.scaleUp? e.toNat else x.scaleDown? (-e).toNat

end Binary64

end LayeredFetch
