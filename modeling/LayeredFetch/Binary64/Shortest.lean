import LayeredFetch.Binary64.Basic

/-!
The shortest decimal text of a binary number.

* **Digits.** Of all decimals that round to the number, `shortest` takes one
  with the fewest digits, and of those the nearest. The reals that round to the
  number form an interval, whose ends belong to it when the significand is even;
  for each number of digits only the two neighbours of the number on the decimal
  grid are tried, since an interval that holds a point of the grid holds one of
  them.
* **Layout.** `Layout` records where positional notation ends and how an
  exponent is written.
-/

namespace LayeredFetch.Binary64

/-! ### The fewest digits -/

/-- The decimal `digits · 10 ^ exponent`. -/
structure Decimal where
  digits : Nat
  exponent : Int
deriving DecidableEq, Repr

/-- The number of decimal digits of a positive integer. -/
def digitCount (n : Nat) : Nat := (Nat.toDigits 10 n).length

/-- The exponent of ten of the leading digit of the positive fraction
`num / den`. -/
def leadingExponent (num den : Nat) : Int :=
  if den ≤ num then digitCount (num / den) - 1
  else -(digitCount ((den + num - 1) / num - 1) : Int)

/-- The value `k · 2 ^ e` compared with `d · 10 ^ f`, both multiplied up to
integers. -/
def compareScaled (k : Nat) (e : Int) (d : Nat) (f : Int) : Ordering :=
  compare (k * Nat.pow 2 e.toNat * Nat.pow 10 (-f).toNat)
    (d * Nat.pow 10 f.toNat * Nat.pow 2 (-e).toNat)

/-- Whether a decimal rounds to the number. In quarters of the last place the
number is `4 · significand`, and the interval reaches two quarters up, and two
down, or one where the numbers below lie twice as dense. -/
def Decimal.roundsTo (d : Decimal) (x : Binary64) : Bool :=
  let quarter := x.exponent - 2
  let down := if x.significand = Nat.pow 2 52 ∧ minExponent < x.exponent then 1 else 2
  let low := compareScaled (4 * x.significand - down) quarter d.digits d.exponent
  let high := compareScaled (4 * x.significand + 2) quarter d.digits d.exponent
  if x.significand % 2 = 0 then low != .gt && high != .lt else low == .lt && high == .gt

/-- The two neighbours of the number on the grid of `n` digits, the nearer
first; of two that are equally near, the even one. -/
def neighbours (x : Binary64) (n : Nat) : List Decimal :=
  let f := leadingExponent x.num x.den - n + 1
  let num := x.num * Nat.pow 10 (-f).toNat
  let den := x.den * Nat.pow 10 f.toNat
  let floor := num / den
  if nearest num den = floor then [⟨floor, f⟩, ⟨floor + 1, f⟩] else [⟨floor + 1, f⟩, ⟨floor, f⟩]

/-- A decimal with the fewest digits among those that round to the number, which
is not zero. Seventeen digits always suffice. -/
def shortest (x : Binary64) : Decimal :=
  let candidates := (List.range 17).flatMap fun n => (x.neighbours (n + 1)).filter (·.roundsTo x)
  candidates.headD ⟨x.num, 0⟩

/-! ### Layout -/

/-- How a decimal is written: positionally while the exponent of its leading
digit is at least `least` and less than `most`; else with an exponent after
`mark`, signed, in at least `width` digits. -/
structure Layout where
  least : Int
  most : Int
  mark : Char
  width : Nat

/-- The least number of characters is reached with zeros on the left. -/
def padLeft (width : Nat) (cs : List Char) : List Char :=
  List.replicate (width - cs.length) '0' ++ cs

/-- The digits of a decimal without zeros at their end, and the exponent of the
leading digit. -/
def Decimal.normal (d : Decimal) : List Char × Int :=
  let all := Nat.toDigits 10 d.digits
  ((all.reverse.dropWhile (· == '0')).reverse, d.exponent + all.length - 1)

/-- The digits with the point after the one whose exponent is zero; there is a
digit on either side of the point. -/
def positional (digits : List Char) (leading : Int) : List Char :=
  if leading < 0 then
    ['0', '.'] ++ List.replicate (-leading - 1).toNat '0' ++ digits
  else
    let whole := leading.toNat + 1
    let fraction := digits.drop whole
    (digits.take whole ++ List.replicate (whole - digits.length) '0') ++
      '.' :: (if fraction.isEmpty then ['0'] else fraction)

/-- The digits with the point after the first one, and the exponent. -/
def Layout.scientific (l : Layout) (digits : List Char) (leading : Int) : List Char :=
  let fraction := digits.drop 1
  digits.take 1 ++ (if fraction.isEmpty then [] else '.' :: fraction) ++
    l.mark :: (if leading < 0 then '-' else '+') ::
      padLeft l.width (Nat.toDigits 10 leading.natAbs)

/-- The text of a number in a layout. -/
def Layout.write (l : Layout) (x : Binary64) : String :=
  let size :=
    if x.isZero then ['0', '.', '0']
    else
      let (digits, leading) := x.shortest.normal
      if l.least ≤ leading ∧ leading < l.most then positional digits leading
      else l.scientific digits leading
  String.ofList (if x.negative then '-' :: size else size)

end LayeredFetch.Binary64
