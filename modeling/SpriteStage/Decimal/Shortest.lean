import SpriteStage.Decimal.Binary

/-!
# The fewest digits that read back

Every real between the midpoints to the two neighbouring doubles rounds to a given double.
`shortest` finds the decimal with the fewest digits in that interval, and of those the one nearest
to the exact value. Its interval ends count when the significand is even, because a tie then rounds
to it.
-/

namespace SpriteStage.Decimal

/-- A positive decimal `digits · 10 ^ exponent`. -/
structure Scientific where
  digits : Nat
  exponent : Int
deriving DecidableEq, Repr

/-- The reals that round to one double: `low / den` to `high / den` around `value / den`. -/
structure Interval where
  low : Nat
  value : Nat
  high : Nat
  den : Nat
  closed : Bool

/-- The interval of a positive magnitude. In quarters of a unit the value stands at `4 · m`, the
upper midpoint two above and the lower midpoint two below, or one below when the significand is
the smallest of its binade. -/
def Binary.interval (b : Binary) : Interval :=
  let m := b.significand
  let below := if m = Nat.pow 2 52 && -1074 < b.exponent then 1 else 2
  let q := b.exponent - 2
  let (scale, den) := if 0 ≤ q then (Nat.pow 2 q.toNat, 1) else (1, Nat.pow 2 (-q).toNat)
  ⟨(4 * m - below) * scale, 4 * m * scale, (4 * m + 2) * scale, den, m % 2 = 0⟩

def Interval.holds (i : Interval) (n d : Nat) : Bool :=
  if i.closed then i.low * d ≤ n * i.den && n * i.den ≤ i.high * d
  else i.low * d < n * i.den && n * i.den < i.high * d

def decimalLength (n : Nat) : Nat := (Nat.toDigits 10 n).length

def leadingExponent (n d : Nat) : Int :=
  if d ≤ n then (decimalLength (n / d) : Int) - 1
  else -(decimalLength ((d + n - 1) / n - 1) : Int)

/-- The decimal on the grid of spacing `10 ^ k` that lies in the interval, if one of the two grid
points around the value does. Of two the nearer, and of two equally near ones the even one. -/
def Interval.onGrid? (i : Interval) (k : Int) : Option Nat :=
  -- a grid point `c` is the quotient `c · up / down`
  let (up, down) := if 0 ≤ k then (Nat.pow 10 k.toNat, 1) else (1, Nat.pow 10 (-k).toNat)
  let c := i.value * down / (i.den * up)
  let r := i.value * down % (i.den * up)
  let lower := i.holds (c * up) down
  let upper := i.holds ((c + 1) * up) down
  let lowerIsNearer :=
    2 * r < i.den * up || (2 * r = i.den * up && c % 2 = 0)
  if lower && (lowerIsNearer || !upper) then some c
  else if upper then some (c + 1)
  else none

/-- Tries grids of more and more digits, `left` of them, the first of spacing `10 ^ k`. -/
def Interval.search (i : Interval) : (left : Nat) → (k : Int) → Scientific
  | 0, k => ⟨i.value / i.den, k⟩
  | left + 1, k =>
    match i.onGrid? k with
    | some c => ⟨c, k⟩
    | none => i.search left (k - 1)

/-- Moves zeros at the end of the digits into the exponent; a double needs at most `left` such moves. -/
def Scientific.strip : (left : Nat) → Scientific → Scientific
  | 0, s => s
  | left + 1, s =>
    if s.digits % 10 = 0 && s.digits ≠ 0 then strip left ⟨s.digits / 10, s.exponent + 1⟩ else s

/-- The shortest decimal that reads back as a positive magnitude; seventeen digits always do. -/
def Binary.shortest (b : Binary) : Scientific :=
  let i := b.interval
  let found := i.search 17 (leadingExponent i.value i.den)
  found.strip 20

end SpriteStage.Decimal
