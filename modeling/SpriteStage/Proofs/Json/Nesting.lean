import SpriteStage.Proofs.Json.Spelling

/-!
# Texts that stand inside others

A text that is a closed container on its own is the same value wherever a value may stand:
`Spells.of_isClosed`. The frames around it lie below all that it opens itself, and no step looks at
them: only a value that is given up takes them with it, and a text that gives up a value never closes
its container.
-/

namespace SpriteStage.Json

namespace Builder

/-- What is open stands inside `fs`, and a whole that is complete is handed to `fs`. -/
def under (fs : List Frame) : Builder → Builder
  | .value gs => .value (gs ++ fs)
  | .inArray items gs => .inArray items (gs ++ fs)
  | .inObject entries gs => .inObject entries (gs ++ fs)
  | .key entries gs => .key entries (gs ++ fs)
  | .colon k entries gs => .colon k entries (gs ++ fs)
  | .finished t _ => close t fs

/-- The whole can still become a closed container. -/
def Open : Builder → Prop
  | .finished t _ => t.isClosed = true
  | _ => True

variable {t : Tree} {gs : List Frame} {k : Token} {entries : List (Tree × Tree)}

theorem not_open_fail (ht : t.isClosed = false) : ¬ (fail t gs).Open := by
  intro h
  have hclosed : (fail t gs).tree.isClosed = true := h
  rw [isClosed_fail, ht] at hclosed
  cases hclosed

/-- Handing over a complete value looks at the innermost frame only. -/
theorem under_close (t : Tree) (gs fs : List Frame) :
    (close t gs).under fs = close t (gs ++ fs) := by
  cases gs with
  | nil => rfl
  | cons g gs => cases g <;> rfl

theorem under_beginValue (fs : List Frame) (h : (beginValue gs k).Open) :
    (beginValue gs k).under fs = beginValue (gs ++ fs) k := by
  cases k with
  | openArray | openObject => rfl
  | null | bool | num | str => exact under_close _ gs fs
  | _ => exact absurd h (not_open_fail rfl)

theorem under_beginKey (fs : List Frame) (h : (beginKey entries gs k).Open) :
    (beginKey entries gs k).under fs = beginKey entries (gs ++ fs) k := by
  cases k with
  | str => rfl
  | _ => exact absurd h (not_open_fail rfl)

/-- A step that gives up nothing does not look at the frames around the whole. -/
theorem under_step {b : Builder} (fs : List Frame) (hb : ∀ t m, b ≠ .finished t m)
    (h : (b.step k).Open) : (b.step k).under fs = (b.under fs).step k := by
  cases b with
  | value gs => exact under_beginValue fs h
  | inArray items gs =>
      by_cases hk : k = .closeArray
      · subst hk
        cases items <;> exact under_close _ gs fs
      · cases items with
        | nil =>
            rw [step_firstItem hk] at h ⊢
            rw [under, step_firstItem hk]
            exact under_beginValue fs h
        | cons item items =>
            cases k with
            | closeArray => exact absurd rfl hk
            | comma => rfl
            | _ => exact absurd h (not_open_fail rfl)
  | inObject entries gs =>
      by_cases hk : k = .closeObject
      · subst hk
        cases entries <;> exact under_close _ gs fs
      · cases entries with
        | nil =>
            rw [step_firstKey hk] at h ⊢
            rw [under, step_firstKey hk]
            exact under_beginKey fs h
        | cons entry entries =>
            cases k with
            | closeObject => exact absurd rfl hk
            | comma => rfl
            | _ => exact absurd h (not_open_fail rfl)
  | key entries gs => exact under_beginKey fs h
  | colon key entries gs =>
      cases k with
      | colon => rfl
      | _ => exact absurd h (not_open_fail rfl)
  | finished t m => exact absurd rfl (hb t m)

/-- Tokens that make a closed container of what is open make the same one inside `fs`. -/
theorem foldl_under {ks : List Token} {b : Builder} (fs : List Frame)
    (h : ks.foldl step b = .finished t false) (ht : t.isClosed = true) :
    ks.foldl step (b.under fs) = close t fs := by
  induction ks generalizing b with
  | nil =>
      cases h
      rfl
  | cons k ks ih =>
      have hb : ∀ u m, b ≠ .finished u m := by
        rintro u m rfl
        -- the token behind a complete value would be noticed
        rw [foldl_finished] at h
        simp at h
      have hopen : (b.step k).Open := by
        cases hstep : b.step k with
        | finished u m =>
            rw [List.foldl_cons, hstep, foldl_finished] at h
            exact (Builder.finished.inj h).1 ▸ ht
        | _ => trivial
      rw [List.foldl_cons, ← under_step fs hb hopen]
      exact ih h

end Builder

open Builder

/-- The first token of a container that is closed in the end is no closing bracket. -/
theorem exists_first_token {text : List Char}
    (h : (Document.ofText text).tree.isClosed = true) :
    ∃ k ks, tokens text = k :: ks ∧ k ≠ .closeArray := by
  rw [Document.ofText, Document.ofTokens] at h
  cases hks : tokens text with
  | nil =>
      rw [hks] at h
      cases h
  | cons k ks =>
      refine ⟨k, ks, rfl, ?_⟩
      rintro rfl
      have hstart : start.step .closeArray = .finished (.broken .malformed) false := rfl
      rw [hks, List.foldl_cons, hstart, foldl_finished] at h
      cases h

/-- **A closed container is the same anywhere.** A text that is a container with its closing bracket
and nothing behind it is read as that container wherever a value may stand. -/
theorem Spells.of_isClosed {text : List Char}
    (h : (Document.ofText text).tree.isClosed = true) (hmore : (Document.ofText text).more = false) :
    Spells text (Document.ofText text).tree := by
  intro b fs rest hb _
  have hadmits (k : Token) (hk : (tokens text).getLast? = some k) : k.admits rest = true := by
    rcases last_of_isClosed h hmore hk with rfl | rfl <;> rfl
  have hend : (tokens text).foldl step start = .finished (Document.ofText text).tree false := by
    rw [← hmore]
    exact eq_finished h
  obtain ⟨k, ks, hks, hk⟩ := exists_first_token h
  have hfirst : b.feed text = (tokens text).foldl step (start.under fs) := by
    rw [feed, hks, List.foldl_cons, List.foldl_cons, hb k hk]
    rfl
  rw [feed_append (tokens_append hadmits), hfirst, foldl_under fs hend h]

end SpriteStage.Json
