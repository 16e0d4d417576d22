import SpriteStage.Decimal.Binary
import SpriteStage.Text.Blank

/-!
# Decimal numerals

The double that a row of decimal digits and a power of ten denote, and the reading of a number
from a text that a person typed: an optional sign, then `inf`, `infinity` or `nan` in any case, or
digits with an optional point and an optional exponent.
-/

namespace SpriteStage.Decimal

def ofDigits (ds : List Char) : Nat :=
  ds.foldl (fun n c => 10 * n + (c.toNat - '0'.toNat)) 0

/-- The value of a row of decimal digits, of which those that follow a value of `limit` or more are
left out. -/
def ofDigitsUpTo (limit : Nat) (ds : List Char) : Nat :=
  ds.foldl (fun n c => if n < limit then 10 * n + (c.toNat - '0'.toNat) else n) 0

/-- More digits than a number halfway between two neighbouring doubles has. -/
def enoughDigits : Nat := 800

/-- A row of digits cut short, and how many of its places are gone. What is cut off leaves a one
behind unless it is nothing but zeros, so that the row stays on its side of every shorter row. -/
def cutDigits (ds : List Char) : List Char × Nat :=
  let kept := ds.take enoughDigits
  let rest := ds.drop enoughDigits
  if rest.all (· = '0') then (kept, rest.length) else (kept ++ ['1'], rest.length - 1)

/-- The double nearest to a row of digits times a power of ten. A numeral that is so large or so
small that it is beyond every double is decided without computing the power. -/
def ofScientific (negative : Bool) (digits : List Char) (exponent : Int) : Float :=
  let ds := digits.dropWhile (· = '0')
  let size : Int := exponent + ds.length
  if ds.isEmpty || size < -330 then nearestDouble negative 0 1
  else if 320 < size then nearestDouble negative (Nat.pow 2 1024) 1
  else
    let (kept, gone) := cutDigits ds
    let power := exponent + gone
    if 0 ≤ power then nearestDouble negative (ofDigits kept * Nat.pow 10 power.toNat) 1
    else nearestDouble negative (ofDigits kept) (Nat.pow 10 (-power).toNat)

/-- A whole number below a limit: digits, after a plus sign or none. -/
def whole? (limit : Nat) (cs : List Char) : Option Nat :=
  let ds := match cs with
    | '+' :: r => r
    | _ => cs
  let n := ofDigitsUpTo limit ds
  if !ds.isEmpty && ds.all Char.isDigit && n < limit then some n else none

def splitDigits (cs : List Char) : List Char × List Char :=
  (cs.takeWhile Char.isDigit, cs.dropWhile Char.isDigit)

/-- An optional sign in front: whether it is a minus, and what follows. -/
def splitSign : List Char → Bool × List Char
  | '-' :: r => (true, r)
  | '+' :: r => (false, r)
  | cs => (false, cs)

/-- The value at which the digits of an exponent are full: those that follow are left out, so a
longer row stands for a smaller power than it says. -/
def exponentLimit : Nat := 65536

/-- The written exponent: nothing, or `e` and a signed row of digits that ends the text. -/
def writtenExponent? : List Char → Option Int
  | [] => some 0
  | c :: r =>
    if c = 'e' || c = 'E' then
      let (negative, body) := splitSign r
      let (ds, rest) := splitDigits body
      if ds.isEmpty || !rest.isEmpty then none
      else
        let n : Int := ofDigitsUpTo exponentLimit ds
        some (if negative then -n else n)
    else none

def unsigned? (negative : Bool) (cs : List Char) : Option Float :=
  let (whole, r) := splitDigits cs
  let (fraction, tail) :=
    match r with
    | '.' :: r' => splitDigits r'
    | _ => ([], r)
  if whole.isEmpty && fraction.isEmpty then none
  else (writtenExponent? tail).map fun e =>
    ofScientific negative (whole ++ fraction) (e - fraction.length)

def number? (cs : List Char) : Option Float :=
  let (negative, body) := splitSign cs
  let word := String.ofList (body.map Char.toLower)
  if word = "inf" || word = "infinity" then some (nearestDouble negative (Nat.pow 2 1024) 1)
  else if word = "nan" then some (0.0 / 0.0)
  else unsigned? negative body

def trimmedNumber? (s : String) : Option Float := number? (Text.trim s.toList)

end SpriteStage.Decimal
