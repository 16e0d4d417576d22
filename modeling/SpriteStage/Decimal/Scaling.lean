import SpriteStage.Decimal.Binary

/-!
# Scaling by powers of ten

A number is read with doubles alone: of its digits as many are taken as fit sixty-four bits, and the
double of these is multiplied or divided by the double of a power of ten. Every step rounds, so what
comes out may be a few units in the last place away from the double nearest to the number.
-/

namespace SpriteStage.Decimal

/-- The value of the digits in front that fit sixty-four bits when they follow the digits of `n`, and
the digits that are left over. -/
def fitDigits : (n : Nat) → List Char → Nat × List Char
  | n, [] => (n, [])
  | n, c :: cs =>
    let n' := 10 * n + (c.toNat - '0'.toNat)
    if n' < Nat.pow 2 64 then fitDigits n' cs else (n, c :: cs)

/-- The greatest exponent of a power of ten that is less than some double. -/
def maxPower : Nat := 308

namespace Binary

def powerOfTen (k : Nat) : Binary := nearest false (Nat.pow 10 k) 1

def timesTen (x : Binary) (k : Nat) : Binary :=
  nearest x.negative (x.ratio.1 * (powerOfTen k).ratio.1) (x.ratio.2 * (powerOfTen k).ratio.2)

def overTen (x : Binary) (k : Nat) : Binary :=
  nearest x.negative (x.ratio.1 * (powerOfTen k).ratio.2) (x.ratio.2 * (powerOfTen k).ratio.1)

/-- Divides by a power of ten, and by several of them when it is no double. -/
def shrink (x : Binary) (k : Nat) : Binary :=
  if k ≤ maxPower then x.overTen k
  else if x.significand = 0 then x
  else shrink (x.overTen maxPower) (k - maxPower)
termination_by k
decreasing_by
  simp only [maxPower] at *
  omega

/-- A whole number times a power of ten, unless it is beyond the largest double. -/
def scaled? (negative : Bool) (n : Nat) : (power : Int) → Option Binary
  | .ofNat k =>
    let x := nearest negative n 1
    if k ≤ maxPower then
      let y := x.timesTen k
      if y.isFinite then some y else none
    else if x.significand = 0 then some x
    else none
  | .negSucc k => some ((nearest negative n 1).shrink (k + 1))

end Binary

end SpriteStage.Decimal
