/-!
# Rounding a quotient to the nearest whole number

`roundHalfEven n d` is the whole number nearest to `n / d`, and of two equally near ones the even
one. `roundHalfEven_close` says that it is never more than half a unit away, and
`even_roundHalfEven_of_tie` that a half goes to the even neighbour.
-/

namespace SpriteStage.Decimal

/-- The whole number nearest to `n / d`, a half going to the even neighbour. -/
def roundHalfEven (n d : Nat) : Nat :=
  let q := n / d
  let r := n % d
  if 2 * r < d then q
  else if d < 2 * r then q + 1
  else if q % 2 = 0 then q else q + 1

/-- Twice the distance between `n` and the rounded multiple of `d` is at most `d`. -/
theorem roundHalfEven_close (n d : Nat) (hd : 0 < d) :
    2 * n ≤ 2 * (d * roundHalfEven n d) + d ∧ 2 * (d * roundHalfEven n d) ≤ 2 * n + d := by
  have hdiv : d * (n / d) + n % d = n := Nat.div_add_mod n d
  have hlt : n % d < d := Nat.mod_lt n hd
  have hsucc : d * (n / d + 1) = d * (n / d) + d := Nat.mul_succ d (n / d)
  unfold roundHalfEven
  dsimp only
  split
  · omega
  · split
    · rw [hsucc]; omega
    · split
      · omega
      · rw [hsucc]; omega

/-- A half goes to the even neighbour. -/
theorem even_roundHalfEven_of_tie (n d : Nat) (h : 2 * (n % d) = d) :
    roundHalfEven n d % 2 = 0 := by
  unfold roundHalfEven
  dsimp only
  split
  · omega
  · split
    · omega
    · split <;> omega

end SpriteStage.Decimal
