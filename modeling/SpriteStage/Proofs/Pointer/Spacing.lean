import Mathlib.Data.List.Chain
import SpriteStage.Proofs.Pointer.Queries

/-!
# How far apart samples are accepted

A sample is accepted when it is recorded, or as of the end of the window in which it waited. One query
can do both: it settles what waits, and then records. Either way the instant lies a window after the one
before it, since the tracker keeps the last of them and looks at nothing else. Queries may come in any
order: a time before the last acceptance falls into its window. `spaced` says so for every sequence of
queries.
-/

namespace SpriteStage.ThrottledPointer

variable {t : ThrottledPointer} {now : Int}

/-- The instant as of which the sample that waits is accepted, if it is accepted by some time. -/
def promotion? (t : ThrottledPointer) (now : Int) : Option Int :=
  if t.pending.isSome && (t.promote now).pending.isNone then (t.promote now).acceptedAt else none

/-- The instant at which a query has its own sample accepted. -/
def taking? (t : ThrottledPointer) : Query → Option Int
  | .record p now => if (t.record p now).1 then some now else none
  | .read _ => none

def accepts (t : ThrottledPointer) (q : Query) : List Int :=
  (t.promotion? q.time).toList ++ (t.taking? q).toList

def acceptances (t : ThrottledPointer) : List Query → List Int
  | [] => []
  | q :: qs => t.accepts q ++ acceptances (t.ask q).2 qs

theorem acceptances_append (t : ThrottledPointer) (qs qs' : List Query) :
    t.acceptances (qs ++ qs') = t.acceptances qs ++ (t.after qs).acceptances qs' := by
  induction qs generalizing t with
  | nil => rfl
  | cons q qs ih => simp only [List.cons_append, acceptances, after_cons, ih, List.append_assoc]

/-! ## One query -/

/-- A sample that waits is accepted as of the end of its window, and only once the window is over. -/
theorem promotion?_cases (t : ThrottledPointer) (now : Int) :
    (t.promotion? now = none ∧ (t.promote now).acceptedAt = t.acceptedAt) ∨
    ∃ start, t.acceptedAt = some start ∧ start + t.interval ≤ now ∧
      t.promotion? now = some (start + t.interval) ∧
      (t.promote now).acceptedAt = some (start + t.interval) := by
  cases hp : t.pending with
  | none => exact .inl ⟨by simp [promotion?, hp], by rw [promote_of_none hp]⟩
  | some p =>
      cases hstart : t.acceptedAt with
      | none =>
          have hsame : t.promote now = t := by
            unfold promote
            rw [hp, hstart]
          exact .inl ⟨by simp [promotion?, hsame, hp], by rw [hsame, hstart]⟩
      | some start =>
          by_cases hdue : start + t.interval ≤ now
          · have hpromoted := promote_of_le hp hstart hdue
            exact .inr ⟨start, rfl, hdue, by simp [promotion?, hpromoted, hp], by rw [hpromoted]⟩
          · have hsame := promote_of_lt hstart (Int.lt_of_not_ge hdue)
            exact .inl ⟨by simp [promotion?, hsame, hp], by rw [hsame, hstart]⟩

theorem promote_interval (t : ThrottledPointer) (now : Int) :
    (t.promote now).interval = t.interval := by
  unfold promote
  split
  · dsimp only
    split <;> rfl
  · rfl

/-- A sample is accepted at once when no window is open, and then a window has passed since the last
acceptance, whatever the time of the query. -/
theorem taking?_cases (t : ThrottledPointer) (p : Point) (now : Int) :
    (t.taking? (.record p now) = none ∧
      (t.record p now).2.acceptedAt = (t.promote now).acceptedAt) ∨
    ((∀ start, (t.promote now).acceptedAt = some start → 0 < t.interval →
        start + t.interval ≤ now) ∧
      t.taking? (.record p now) = some now ∧ (t.record p now).2.acceptedAt = some now) := by
  cases hwindow : (t.promote now).inWindow now with
  | true => exact .inl (by simp [taking?, record, hwindow])
  | false =>
      refine .inr ⟨fun start hstart hpos => ?_, by simp [taking?, record, hwindow]⟩
      simp only [inWindow, hstart, promote_interval, decide_eq_false_iff_not] at hwindow
      omega

theorem ask_interval (t : ThrottledPointer) (q : Query) : (t.ask q).2.interval = t.interval := by
  cases q with
  | record p now =>
      show (t.record p now).2.interval = _
      unfold record
      dsimp only
      split <;> exact promote_interval t now
  | read now => exact promote_interval t now

/-! ## The gaps -/

def Apart (interval : Nat) (instants : List Int) : Prop :=
  instants.IsChain fun a b : Int => a + interval ≤ b

theorem apart_cons_cons {interval : Nat} {a b : Int} {later : List Int} :
    Apart interval (a :: b :: later) ↔ a + interval ≤ b ∧ Apart interval (b :: later) :=
  List.isChain_cons_cons

/-- What a query accepts comes an interval after the last acceptance, and is the last acceptance for
the queries after it. -/
theorem apart_accepts {q : Query} {later : List Int} (hpos : 0 < t.interval)
    (h : Apart t.interval ((t.ask q).2.acceptedAt.toList ++ later)) :
    Apart t.interval (t.acceptedAt.toList ++ (t.accepts q ++ later)) := by
  have hpromote {rest : List Int} {now : Int}
      (hrest : Apart t.interval ((t.promote now).acceptedAt.toList ++ rest)) :
      Apart t.interval (t.acceptedAt.toList ++ ((t.promotion? now).toList ++ rest)) := by
    rcases promotion?_cases t now with ⟨hnone, hsame⟩ | ⟨start, hstart, -, hsome, hnext⟩
    · rwa [hnone, ← hsame]
    · rw [hstart, hsome]
      rw [hnext] at hrest
      exact apart_cons_cons.mpr ⟨Int.le_refl _, hrest⟩
  unfold accepts
  rw [List.append_assoc]
  refine hpromote ?_
  cases q with
  | read now => exact h
  | record p now =>
      rcases taking?_cases t p now with ⟨hnone, hsame⟩ | ⟨hgap, hsome, hnext⟩
      · rw [hnone, Query.time, ← hsame]
        exact h
      · have hlater : Apart t.interval (now :: later) := by
          have hask : (t.ask (.record p now)).2.acceptedAt = some now := hnext
          rwa [hask] at h
        rw [hsome, Query.time]
        cases hstart : (t.promote now).acceptedAt with
        | none => exact hlater
        | some start => exact apart_cons_cons.mpr ⟨hgap start hstart hpos, hlater⟩

theorem apart_acceptances (hpos : 0 < t.interval) (qs : List Query) :
    Apart t.interval (t.acceptedAt.toList ++ t.acceptances qs) := by
  induction qs generalizing t with
  | nil => cases t.acceptedAt <;> simp [acceptances, Apart]
  | cons q qs ih =>
      have hinterval := ask_interval t q
      have hnext := ih (t := (t.ask q).2) (hinterval ▸ hpos)
      rw [hinterval] at hnext
      exact apart_accepts hpos hnext

/-- What the tracker keeps is the instant of the last acceptance. -/
theorem acceptedAt_ask (t : ThrottledPointer) (q : Query) :
    (t.ask q).2.acceptedAt = (t.acceptedAt.toList ++ t.accepts q).getLast? := by
  have hpromote (now : Int) : (t.promote now).acceptedAt =
      (t.acceptedAt.toList ++ (t.promotion? now).toList).getLast? := by
    rcases promotion?_cases t now with ⟨hnone, hsame⟩ | ⟨start, hstart, -, hsome, hnext⟩
    · rw [hnone, hsame]
      cases t.acceptedAt <;> rfl
    · rw [hstart, hsome, hnext]
      rfl
  unfold accepts
  rw [← List.append_assoc]
  cases q with
  | read now =>
      show (t.promote now).acceptedAt = _
      simpa [taking?, Query.time] using hpromote now
  | record p now =>
      show (t.record p now).2.acceptedAt = _
      rcases taking?_cases t p now with ⟨hnone, hsame⟩ | ⟨-, hsome, hnext⟩
      · simpa [hnone, hsame, Query.time] using hpromote now
      · simpa [hsome] using hnext

theorem acceptedAt_after (t : ThrottledPointer) (qs : List Query) :
    (t.after qs).acceptedAt = (t.acceptedAt.toList ++ t.acceptances qs).getLast? := by
  have hlast (before after : List Int) :
      (before.getLast?.toList ++ after).getLast? = (before ++ after).getLast? := by
    rw [List.getLast?_append, List.getLast?_append]
    cases before.getLast? <;> rfl
  induction qs generalizing t with
  | nil => cases h : t.acceptedAt <;> simp [acceptances, h]
  | cons q qs ih =>
      rw [after_cons, ih, acceptedAt_ask, hlast, acceptances, List.append_assoc]

/-- Of instants that are apart a window holds one at most. -/
theorem Apart.length_window_le {interval : Nat} {instants : List Int} (h : Apart interval instants)
    (start : Int) :
    (instants.filter fun a => start ≤ a ∧ a < start + interval).length ≤ 1 := by
  have hpairwise : instants.Pairwise fun a b : Int => a + interval ≤ b := by
    have : IsTrans Int fun a b : Int => a + interval ≤ b := ⟨fun a b c hab hbc => by omega⟩
    exact List.isChain_iff_pairwise.mp h
  have hinside := hpairwise.filter fun a => start ≤ a ∧ a < start + interval
  match hfilter : instants.filter fun a => start ≤ a ∧ a < start + interval with
  | [] => exact Nat.zero_le _
  | [_] => exact Nat.le_refl _
  | a :: b :: rest =>
      have hmem (c : Int) (hc : c ∈ a :: b :: rest) : start ≤ c ∧ c < start + interval := by
        rw [← hfilter] at hc
        simpa using (List.mem_filter.mp hc).2
      rw [hfilter] at hinside
      have hgap := (List.pairwise_cons.mp hinside).1 b List.mem_cons_self
      have ha := hmem a List.mem_cons_self
      have hb := hmem b (List.mem_cons_of_mem _ List.mem_cons_self)
      omega

/-- When samples are accepted in some queries to a tracker that was told nothing yet. -/
structure Spaced (interval : Nat) (qs : List Query) : Prop where
  /-- Successive acceptances are an interval apart. -/
  apart : Apart interval ((ofInterval interval).acceptances qs)
  /-- A window of that length holds one of them at most. -/
  window : ∀ start : Int, (((ofInterval interval).acceptances qs).filter fun a =>
    start ≤ a ∧ a < start + interval).length ≤ 1
  /-- A query in which the sample that waited and a new one are accepted keeps to it. -/
  both : ∀ (before after : List Query) (q : Query) (a b : Int), qs = before ++ q :: after →
    ((ofInterval interval).after before).accepts q = [a, b] → a + interval ≤ b
  /-- After each query the tracker knows when it last accepted a sample. -/
  last : ∀ before after : List Query, qs = before ++ after →
    ((ofInterval interval).after before).acceptedAt =
      ((ofInterval interval).acceptances before).getLast?

/-- Samples are accepted an interval apart, in whatever order queries come. -/
theorem spaced {interval : Nat} (h : 0 < interval) (qs : List Query) : Spaced interval qs := by
  have hapart := apart_acceptances (t := ofInterval interval) h
  refine ⟨hapart qs, (hapart qs).length_window_le, ?_, ?_⟩
  · intro before after q a b hqs hboth
    have hwhole := hapart qs
    rw [hqs, acceptances_append, acceptances, hboth] at hwhole
    exact (apart_cons_cons.mp (List.IsChain.right_of_append hwhole)).1
  · intro before after _
    exact acceptedAt_after (ofInterval interval) before

/-- Four samples in windows of 200. The third one has an earlier time than the first and waits in place of
the second; the fourth one settles that it was accepted when the window ended, and is accepted itself. -/
def disordered : List Query :=
  [.record ⟨1.0, 1.0⟩ 500, .record ⟨2.0, 2.0⟩ 560, .record ⟨3.0, 3.0⟩ 100, .read 699,
    .record ⟨4.0, 4.0⟩ 950]

theorem spaced_disordered :
    0 < 200 ∧ (ofInterval 200).acceptances disordered = [500, 700, 950] ∧ Spaced 200 disordered :=
  ⟨by decide, by decide, spaced (by decide) disordered⟩

end SpriteStage.ThrottledPointer
