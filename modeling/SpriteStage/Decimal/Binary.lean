import SpriteStage.Decimal.Rounding

/-!
# The exact value of a double

A finite double is a sign and a magnitude `significand · 2 ^ exponent`. `Binary.ofFloat?` takes the
bits apart, `Binary.ratio` gives the magnitude as a quotient of whole numbers, `Binary.floor` and
`Binary.ceil` the whole numbers around the value, and `nearestDouble` goes back: it is the double
nearest to a quotient, of two equally near ones the one whose significand is even.
-/

namespace SpriteStage.Decimal

/-- A finite double: the magnitude is `significand · 2 ^ exponent`. -/
structure Binary where
  negative : Bool
  significand : Nat
  exponent : Int
deriving DecidableEq, Repr

namespace Binary

def exponentBits (x : Float) : Nat := (x.toBits.toNat / Nat.pow 2 52) % Nat.pow 2 11

def fractionBits (x : Float) : Nat := x.toBits.toNat % Nat.pow 2 52

def signBit (x : Float) : Bool := x.toBits.toNat / Nat.pow 2 63 == 1

/-- The exact value of a finite double; an infinity or a NaN has none. -/
def ofFloat? (x : Float) : Option Binary :=
  let e := exponentBits x
  let f := fractionBits x
  if e = 2047 then none
  else if e = 0 then some ⟨signBit x, f, -1074⟩
  else some ⟨signBit x, Nat.pow 2 52 + f, (e : Int) - 1075⟩

/-- The magnitude as numerator and denominator; the denominator is a power of two. -/
def ratio (b : Binary) : Nat × Nat :=
  match b.exponent with
  | .ofNat k => (b.significand * Nat.pow 2 k, 1)
  | .negSucc k => (b.significand, Nat.pow 2 (k + 1))

theorem ratio_snd_pos (b : Binary) : 0 < b.ratio.2 := by
  unfold ratio
  split
  · exact Nat.one_pos
  · exact Nat.two_pow_pos _

def numerator (b : Binary) : Int := if b.negative then -(b.ratio.1 : Int) else b.ratio.1

def floor (b : Binary) : Int := b.numerator / b.ratio.2

def ceil (b : Binary) : Int := -(-b.numerator / b.ratio.2)

theorem floor_spec (b : Binary) :
    b.floor * b.ratio.2 ≤ b.numerator ∧ b.numerator < (b.floor + 1) * b.ratio.2 := by
  have hpos : (0 : Int) < b.ratio.2 := Int.natCast_pos.mpr b.ratio_snd_pos
  exact ⟨Int.ediv_mul_le _ (Int.ne_of_gt hpos), Int.lt_ediv_add_one_mul_self _ hpos⟩

theorem ceil_spec (b : Binary) :
    (b.ceil - 1) * b.ratio.2 < b.numerator ∧ b.numerator ≤ b.ceil * b.ratio.2 := by
  have hpos : (0 : Int) < b.ratio.2 := Int.natCast_pos.mpr b.ratio_snd_pos
  have hle := Int.ediv_mul_le (-b.numerator) (Int.ne_of_gt hpos)
  have hlt := Int.lt_ediv_add_one_mul_self (-b.numerator) hpos
  unfold ceil
  generalize -b.numerator / b.ratio.2 = q at hle hlt
  simp only [Int.sub_mul, Int.add_mul, Int.neg_mul] at hlt ⊢
  omega

end Binary

/-- A double rounded to a whole number that is kept between two bounds. An infinity is the bound on its
side, and a NaN zero. -/
def wholeWithin (round : Binary → Int) (low high : Int) (x : Float) : Int :=
  match Binary.ofFloat? x with
  | some b => max low (min (round b) high)
  | none => if x.isNaN then 0 else if Binary.signBit x then low else high

/-- The exponent of the lowest significand bit of the doubles around `n / d`: fifty-two below the
leading bit of the quotient, and never below that of the subnormal numbers. -/
def unitExponent (n d : Nat) : Int :=
  let estimate : Int := (n.log2 : Int) - (d.log2 : Int)
  -- the leading bit of the quotient stands at the estimate or just below it
  let atLeast : Bool :=
    if 0 ≤ estimate then d * Nat.pow 2 estimate.toNat ≤ n else d ≤ n * Nat.pow 2 (-estimate).toNat
  let lead := if atLeast then estimate else estimate - 1
  max (lead - 52) (-1074)

/-- The value nearest to `n / d` that a double has room for, when its exponent may be as great as it
likes. A carry makes the significand one bit longer. -/
def Binary.nearest (negative : Bool) (n d : Nat) : Binary :=
  let q := unitExponent n d
  let m :=
    if 0 ≤ q then roundHalfEven n (d * Nat.pow 2 q.toNat)
    else roundHalfEven (n * Nat.pow 2 (-q).toNat) d
  ⟨negative, m, q⟩

/-- The bits of a value without its sign. A carry out of the significand lands in the exponent bits,
where it belongs. -/
def Binary.bits (b : Binary) : Nat :=
  if b.significand < Nat.pow 2 52 then b.significand
  else (b.exponent + 1075).toNat * Nat.pow 2 52 + (b.significand - Nat.pow 2 52)

def infinityBits : Nat := 2047 * Nat.pow 2 52

def Binary.isFinite (b : Binary) : Bool := b.bits < infinityBits

/-- The double of a value; one beyond the largest double gives an infinity. -/
def Binary.toFloat (b : Binary) : Float :=
  let magnitude := min b.bits infinityBits
  Float.ofBits (UInt64.ofNat (if b.negative then Nat.pow 2 63 + magnitude else magnitude))

def nearestDouble (negative : Bool) (n d : Nat) : Float := (Binary.nearest negative n d).toFloat

end SpriteStage.Decimal
