import SpriteStage.Decimal.Shortest

/-!
# How a double is written

`Layout` holds the decisions of a number format: which exponents are written out with a point, and
how the others are marked. `numberText?` is the format of every number this library writes into a
text, and `wholeText` the one of the status line, which has no digits after the point.
-/

namespace SpriteStage.Decimal

structure Layout where
  /-- The least exponent of the leading digit that is written with a point. -/
  plainFrom : Int
  /-- The least exponent above those that is not. -/
  plainBelow : Int
  /-- The mark in front of a written exponent that is not negative. -/
  exponentMark : String
  /-- The mark in front of a negative one; its digits follow. -/
  negativeExponentMark : String

/-- Exponents from -5 to 15 are written out, others after `e` and a sign. -/
def numberLayout : Layout := ⟨-5, 16, "e+", "e-"⟩

def zeros (n : Nat) : String := String.ofList (List.replicate n '0')

def Layout.text (l : Layout) (s : Scientific) : String :=
  let ds := toString s.digits
  let lead : Int := s.exponent + (ds.length : Int) - 1
  if l.plainFrom ≤ lead && lead < l.plainBelow then
    if 0 ≤ s.exponent then ds ++ zeros s.exponent.toNat ++ ".0"
    else if 0 ≤ lead then
      let whole := lead.toNat + 1
      String.ofList (ds.toList.take whole) ++ "." ++ String.ofList (ds.toList.drop whole)
    else "0." ++ zeros (-lead - 1).toNat ++ ds
  else
    let mantissa :=
      match ds.toList with
      | [] => ""
      | [d] => String.singleton d
      | d :: r => String.singleton d ++ "." ++ String.ofList r
    let mark := if lead < 0 then l.negativeExponentMark else l.exponentMark
    mantissa ++ mark ++ toString lead.natAbs

/-- The shortest text that reads back as a finite double; an infinity or a NaN has no such text. -/
def numberText? (x : Float) : Option String :=
  (Binary.ofFloat? x).map fun b =>
    let sign := if b.negative then "-" else ""
    if b.significand = 0 then sign ++ "0.0" else sign ++ numberLayout.text b.shortest

/-- A double rounded to a whole number, a half going to the even neighbour. The sign of a negative
zero is written; with `plus` a sign is written in front of the others too. -/
def wholeText (plus : Bool) (x : Float) : String :=
  if x.isNaN then "NaN"
  else
    let sign := if Binary.signBit x then "-" else if plus then "+" else ""
    match Binary.ofFloat? x with
    | none => sign ++ "inf"
    | some b => sign ++ toString (roundHalfEven b.ratio.1 b.ratio.2)

end SpriteStage.Decimal
