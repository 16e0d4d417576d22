import SpriteStage.Pointer

/-!
# Asking a tracker

A tracker is told samples and asked for the one that holds. Either way it first settles whether the
pending sample has become current, as of the end of its window, so that settling at two times is the
same as settling at the later one: `promote_promote`. An answer therefore depends on the samples that
were recorded before it, and not on reads: `ask_after`.
-/

namespace SpriteStage.ThrottledPointer

inductive Query where
  | record (p : Point) (now : Int)
  | read (now : Int)

inductive Response where
  | recorded (atOnce : Bool)
  | held (p : Point)

namespace Query

def time : Query → Int
  | .record _ now => now
  | .read now => now

def isRecord : Query → Bool
  | .record _ _ => true
  | .read _ => false

end Query

def ofInterval (interval : Nat) : ThrottledPointer := { interval }

def ask (t : ThrottledPointer) : Query → Response × ThrottledPointer
  | .record p now => (t.record p now).map Response.recorded id
  | .read now => (t.read now).map Response.held id

def after (t : ThrottledPointer) (qs : List Query) : ThrottledPointer :=
  qs.foldl (fun t q => (t.ask q).2) t

def responses (t : ThrottledPointer) : List Query → List Response
  | [] => []
  | q :: qs => (t.ask q).1 :: responses (t.ask q).2 qs

def InOrder (qs : List Query) : Prop := qs.Pairwise fun q q' => q.time ≤ q'.time

instance (qs : List Query) : Decidable (InOrder qs) :=
  inferInstanceAs (Decidable (qs.Pairwise fun q q' => q.time ≤ q'.time))

variable {t : ThrottledPointer}

@[simp] theorem after_nil (t : ThrottledPointer) : t.after [] = t := rfl

@[simp] theorem after_cons (t : ThrottledPointer) (q : Query) (qs : List Query) :
    t.after (q :: qs) = (t.ask q).2.after qs := rfl

theorem after_append (t : ThrottledPointer) (qs qs' : List Query) :
    t.after (qs ++ qs') = (t.after qs).after qs' := List.foldl_append

theorem ask_read_snd (t : ThrottledPointer) (now : Int) :
    (t.ask (.read now)).2 = t.promote now := rfl

/-! ## Promoting -/

/-- Nothing waits. -/
theorem promote_of_none (h : t.pending = none) (now : Int) : t.promote now = t := by
  unfold promote
  rw [h]

theorem promote_of_lt {start now : Int} (hstart : t.acceptedAt = some start)
    (h : now < start + t.interval) : t.promote now = t := by
  unfold promote
  split
  · rename_i hstart'
    rw [hstart] at hstart'
    cases hstart'
    exact if_neg (by omega)
  · rfl

theorem promote_of_le {p : Point} {start now : Int} (hp : t.pending = some p)
    (hstart : t.acceptedAt = some start) (h : start + t.interval ≤ now) :
    t.promote now =
      { t with position := p, acceptedAt := some (start + t.interval), pending := none } := by
  unfold promote
  rw [hp, hstart]
  exact if_pos h

/-- A sample that became current by some time has become current by every later time, and as of the
same instant. -/
theorem promote_promote {now later : Int} (h : now ≤ later) :
    (t.promote now).promote later = t.promote later := by
  cases hp : t.pending with
  | none => rw [promote_of_none hp]
  | some p =>
      cases hstart : t.acceptedAt with
      | none =>
          have hsame : t.promote now = t := by
            unfold promote
            rw [hp, hstart]
          rw [hsame]
      | some start =>
          by_cases hdue : start + t.interval ≤ now
          · rw [promote_of_le hp hstart hdue, promote_of_none rfl,
              promote_of_le hp hstart (Int.le_trans hdue h)]
          · rw [promote_of_lt hstart (by omega)]

/-! ## What an answer depends on -/

theorem ask_promote {q : Query} {now : Int} (h : now ≤ q.time) :
    (t.promote now).ask q = t.ask q := by
  cases q with
  | record p later => simp only [ask, record, promote_promote (show now ≤ later from h)]
  | read later => simp only [ask, read, promote_promote (show now ≤ later from h)]

/-- The first query settles what a read before it settled. -/
theorem ask_after_promote {qs : List Query} {q : Query} {now : Int}
    (hqs : ∀ q' ∈ qs, now ≤ q'.time) (hq : now ≤ q.time) :
    ((t.promote now).after qs).ask q = (t.after qs).ask q := by
  cases qs with
  | nil => exact ask_promote hq
  | cons q' qs => rw [after_cons, after_cons, ask_promote (hqs q' List.mem_cons_self)]

/-- An answer depends on the samples that were recorded, and not on the reads in between. -/
theorem ask_after {qs : List Query} {q : Query} (h : InOrder (qs ++ [q])) :
    (t.after qs).ask q = (t.after (qs.filter Query.isRecord)).ask q := by
  induction qs generalizing t with
  | nil => rfl
  | cons q' qs ih =>
      obtain ⟨hfirst, hrest⟩ := List.pairwise_cons.mp h
      cases q' with
      | record p now => exact ih hrest
      | read now =>
          rw [after_cons, ih hrest, ask_read_snd]
          refine ask_after_promote (fun q' hq' => ?_) ?_
          · exact hfirst q' (List.mem_append_left _ (List.mem_filter.mp hq').1)
          · exact hfirst q (List.mem_append_right _ (List.mem_singleton.mpr rfl))

end SpriteStage.ThrottledPointer
