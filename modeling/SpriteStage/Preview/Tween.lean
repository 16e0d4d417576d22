import SpriteStage.Duration
import SpriteStage.Sprite.Motion

/-!
# Tweens

How a glide is drawn: the sprite's place goes evenly from where it was drawn to where it is. Instants
are microseconds on one time line.
-/

namespace SpriteStage

structure Tween where
  source : Point
  target : Point
  started : Int
  durationMs : Nat

namespace Tween

/-- The time since the start; before the start none. -/
def elapsed (t : Tween) (now : Int) : Duration := ⟨(now - t.started).toNat * 1000⟩

/-- Where the sprite is drawn, and whether it has arrived. -/
def sample (t : Tween) (now : Int) : Point × Bool :=
  let elapsed := t.elapsed now
  let duration := Duration.ofMillis t.durationMs
  if duration.nanos = 0 || duration.nanos ≤ elapsed.nanos then (t.target, true)
  else
    let part := elapsed.toFloat / duration.toFloat
    (⟨t.source.x + (t.target.x - t.source.x) * part,
      t.source.y + (t.target.y - t.source.y) * part⟩, false)

end Tween

end SpriteStage
