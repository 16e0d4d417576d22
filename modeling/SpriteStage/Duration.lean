import SpriteStage.Decimal.Binary

/-!
# Durations

A duration is a whole number of nanoseconds. `ofSeconds` takes the seconds that a block asks for,
`millis` what is recorded of a duration, and `timerMillis` how long a timer of whole milliseconds
runs for it, which is never shorter up to a limit of thirty years.
-/

namespace SpriteStage

structure Duration where
  nanos : Nat
deriving DecidableEq, Repr

namespace Duration

def zero : Duration := ⟨0⟩

def ofMillis (ms : Nat) : Duration := ⟨ms * 1000000⟩

def secondsLimit : Nat := Nat.pow 2 64

/-- The nanoseconds nearest to a number of seconds, a half going to the even neighbour. A negative
number, one that is not finite, and one of `secondsLimit` or more count as zero. -/
def ofSeconds (x : Float) : Duration :=
  match Decimal.Binary.ofFloat? x with
  | none => zero
  | some b =>
    let (n, d) := b.ratio
    if b.negative || secondsLimit * d ≤ n then zero
    else ⟨Decimal.roundHalfEven (n * 1000000000) d⟩

/-- The whole milliseconds of a duration, as many as sixty-four bits hold. -/
def millis (d : Duration) : Nat := min (d.nanos / 1000000) (Nat.pow 2 64 - 1)

/-- The longest time that a timer runs: thirty years of 365 days. -/
def longestTimerMillis : Nat := 30 * 365 * 24 * 60 * 60 * 1000

/-- The milliseconds until a timer for the duration fires. -/
def timerMillis (d : Duration) : Nat := min ((d.nanos + 999999) / 1000000) longestTimerMillis

/-- A timer that is not too long never fires early, and less than a millisecond late. -/
theorem timerMillis_spec (d : Duration) (h : d.nanos ≤ longestTimerMillis * 1000000) :
    d.nanos ≤ d.timerMillis * 1000000 ∧ d.timerMillis * 1000000 < d.nanos + 1000000 := by
  unfold timerMillis longestTimerMillis at *
  omega

/-- A timer for whole milliseconds runs for just these, up to the longest time. -/
theorem timerMillis_ofMillis (ms : Nat) : (ofMillis ms).timerMillis = min ms longestTimerMillis := by
  have : (ms * 1000000 + 999999) / 1000000 = ms := by omega
  unfold timerMillis ofMillis
  rw [this]

def seconds (d : Duration) : Nat := d.nanos / 1000000000

def subsecondNanos (d : Duration) : Nat := d.nanos % 1000000000

def toFloat (d : Duration) : Float :=
  Float.ofNat d.seconds + Float.ofNat d.subsecondNanos / 1000000000.0

end Duration

end SpriteStage
