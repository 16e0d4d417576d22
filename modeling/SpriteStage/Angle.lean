import SpriteStage.Decimal.Binary

/-!
# Angles

Angles in degrees grow clockwise from the right. `turned` brings one into the circle, by an exact
remainder, and `arrow` shows the nearest of eight directions.
-/

namespace SpriteStage.Angle

/-- The remainder of an angle by a full circle, with the sign of the angle. It is exact: the
remainder of a double by 360 is a double. -/
def remainder (x : Float) : Float :=
  match Decimal.Binary.ofFloat? x with
  | none => 0.0 / 0.0
  | some b =>
    let (n, d) := b.ratio
    Decimal.nearestDouble b.negative (n % (360 * d)) d

/-- The angle from zero to a full circle with the same direction. -/
def turned (x : Float) : Float :=
  let r := remainder x
  if r < 0.0 then r + 360.0 else r

def arrows : List Char := ['→', '↘', '↓', '↙', '←', '↖', '↑', '↗']

/-- The arrow nearest to an angle. An angle that is no number points to the right. -/
def arrow (x : Float) : Char :=
  let sector := ((turned x + 22.5) / 45.0).floor.toUInt64.toNat % arrows.length
  arrows.getD sector '→'

end SpriteStage.Angle
