import LayeredFetch.Json.Basic
import LayeredFetch.Text.Digits

/-!
Numbers in JSON texts.

* **Kinds.** A literal without fraction and exponent that fits 64 bits, signed or
  unsigned, is an integer; every other literal, and `-0`, is a binary number, and
  one beyond the largest binary number is refused.
* **Significand.** The digits of a literal are gathered into a significand of 64
  bits. An integer digit that no longer fits is dropped and raises the exponent;
  with the first fraction digit that does not fit, the significand is complete.
-/

namespace LayeredFetch.Json

/-- A number literal, in its parts. -/
structure Literal where
  negative : Bool
  whole : List Char
  /-- The digits after the point, if there is one. -/
  fraction : Option (List Char)
  /-- The sign (whether it is negative) and the digits after the mark, if there
  is one. -/
  exponent : Option (Bool × List Char)
deriving DecidableEq, Repr

namespace Literal

open Text (digitValue natOfDigits)

/-- The parts of a literal of digits, signs, a point and an exponent mark; each
run of digits has at least one, and an integer of several digits does not begin
with zero. -/
def ofChars? (cs : List Char) : Option Literal := do
  let (negative, cs) := match cs with
    | '-' :: rest => (true, rest)
    | _ => (false, cs)
  let (whole, cs) := cs.span Char.isDigit
  guard (!whole.isEmpty && (whole.length == 1 || whole.head? != some '0'))
  let (fraction, cs) ← match cs with
    | '.' :: rest =>
        let (digits, rest) := rest.span Char.isDigit
        if digits.isEmpty then none else some (some digits, rest)
    | _ => some (none, cs)
  let exponent ← match cs with
    | [] => some none
    | mark :: rest =>
        if mark == 'e' || mark == 'E' then
          let (sign, digits) := match rest with
            | '-' :: digits => (true, digits)
            | '+' :: digits => (false, digits)
            | _ => (false, rest)
          if digits.isEmpty || digits.any (!·.isDigit) then none else some (some (sign, digits))
        else none
  return ⟨negative, whole, fraction, exponent⟩

/-- The first integer that does not fit 64 bits. -/
def limit : Nat := Nat.pow 2 64

/-- Gathers integer digits into a significand: the digits that fit, and the
number of those dropped. The first digit that does not fit ends the gathering. -/
def gatherWhole (m : Nat) : List Char → Nat × Nat
  | [] => (m, 0)
  | c :: cs =>
      let next := 10 * m + digitValue c
      if next < limit then gatherWhole next cs else (m, cs.length + 1)

/-- Gathers fraction digits into a significand; gives it with the number of
digits gathered. -/
def gatherFraction (m : Nat) : List Char → Nat × Nat
  | [] => (m, 0)
  | c :: cs =>
      let next := 10 * m + digitValue c
      if next < limit then
        let (m, count) := gatherFraction next cs
        (m, count + 1)
      else (m, 0)

/-- The value of a literal as a binary number. -/
def binary? (l : Literal) : Option Binary64 := do
  let (m, dropped) := gatherWhole 0 l.whole
  let (m, gathered) := gatherFraction m (l.fraction.getD [])
  let shift : Int :=
    match l.exponent with
    | none => 0
    | some (true, digits) => -(natOfDigits digits : Int)
    | some (false, digits) => natOfDigits digits
  let size ← Binary64.ofDecimal? m (dropped - gathered + shift)
  return if l.negative then size.neg else size

/-- The value of a literal. -/
def value? (l : Literal) : Option Json :=
  let n := natOfDigits l.whole
  if l.fraction.isNone && l.exponent.isNone then
    if l.negative then
      if 0 < n ∧ n ≤ Nat.pow 2 63 then some (.int (-n)) else l.binary?.map .binary
    else if n < limit then some (.int n) else l.binary?.map .binary
  else l.binary?.map .binary

end Literal

/-- The value of a number literal. -/
def number? (cs : List Char) : Option Json := do (← Literal.ofChars? cs).value?

end LayeredFetch.Json
