import SpriteStage.Proofs.Pointer.Queries

/-!
# How stale a read can be

The samples that a tracker is told are numbered in the order in which they are recorded. A read finds
one of them, and no sample that was recorded a window ago or earlier has a higher number: what waits
was recorded in the window that is still open. `keeps_up` says so for every sequence of queries, and
that the numbers never go back.
-/

namespace SpriteStage.ThrottledPointer

structure Sample where
  point : Point
  time : Int

def Query.sample? : Query → Option Sample
  | .record p now => some ⟨p, now⟩
  | .read _ => none

def samples (qs : List Query) : List Sample := qs.filterMap Query.sample?

theorem samples_append (qs qs' : List Query) : samples (qs ++ qs') = samples qs ++ samples qs' :=
  List.filterMap_append

@[simp] theorem samples_read (now : Int) : samples [.read now] = [] := rfl

/-! ## What a tracker holds -/

/-- A tracker at a time, the samples that it was told, and the number of the one that it holds. -/
inductive Holds (interval : Nat) (now : Int) : List Sample → Nat → ThrottledPointer → Prop where
  | nothing : Holds interval now [] 0 (ofInterval interval)
  /-- The last sample holds. -/
  | last {before : List Sample} {s : Sample} {start : Int} (began : start ≤ now) :
      Holds interval now (before ++ [s]) before.length ⟨interval, s.point, some start, none⟩
  /-- The last sample waits. All samples after the one that holds fell into the open window. -/
  | waiting {before : List Sample} {s held : Sample} {number : Nat} {start : Int}
      (began : start ≤ now) (holds : before[number]? = some held)
      (inside : ∀ j s', number < j → (before ++ [s])[j]? = some s' → start ≤ s'.time) :
      Holds interval now (before ++ [s]) number ⟨interval, held.point, some start, some s.point⟩

namespace Holds

variable {interval number : Nat} {now later : Int} {told : List Sample} {t : ThrottledPointer}

theorem interval_eq (h : Holds interval now told number t) : t.interval = interval := by
  cases h <;> rfl

theorem number_le (h : Holds interval now told number t) : number ≤ told.length := by
  cases h with
  | nothing => exact Nat.le_refl _
  | last began => simp
  | waiting began holds inside =>
      have hlt := (List.getElem?_eq_some_iff.mp holds).1
      simp only [List.length_append, List.length_singleton]
      omega

/-- As time goes on, the sample that holds stays or gives way to a later one. -/
theorem promote (h : Holds interval now told number t) (hlater : now ≤ later) :
    ∃ number', number ≤ number' ∧ Holds interval later told number' (t.promote later) := by
  cases h with
  | nothing => exact ⟨0, Nat.le_refl _, .nothing⟩
  | last began =>
      rw [promote_of_none rfl]
      exact ⟨_, Nat.le_refl _, .last (Int.le_trans began hlater)⟩
  | @waiting before s held number start began holds inside =>
      by_cases hdue : start + interval ≤ later
      · rw [promote_of_le rfl rfl hdue]
        have hlt := (List.getElem?_eq_some_iff.mp holds).1
        exact ⟨before.length, Nat.le_of_lt hlt, .last hdue⟩
      · rw [promote_of_lt rfl (Int.lt_of_not_ge hdue)]
        exact ⟨number, Nat.le_refl _, .waiting (Int.le_trans began hlater) holds inside⟩

/-- A sample that falls into the open window waits, in the place of one that waited before it. -/
theorem wait {start : Int} (h : Holds interval now told number t)
    (hstart : t.acceptedAt = some start) (p : Point) :
    Holds interval now (told ++ [⟨p, now⟩]) number { t with pending := some p } := by
  cases h with
  | nothing => cases hstart
  | @last before s start' began =>
      have hheld : (before ++ [s])[before.length]? = some s := by simp
      refine .waiting began hheld fun j s' hj hs' => ?_
      have hlt := (List.getElem?_eq_some_iff.mp hs').1
      obtain rfl : j = before.length + 1 := by
        simp only [List.length_append, List.length_singleton] at hlt
        omega
      rw [List.getElem?_append_right (by simp)] at hs'
      simp only [List.length_append, List.length_singleton, Nat.sub_self,
        List.getElem?_cons_zero, Option.some.injEq] at hs'
      rw [← hs']
      exact began
  | @waiting before s held number start' began holds inside =>
      have hlt := (List.getElem?_eq_some_iff.mp holds).1
      refine .waiting began ?_ fun j s' hj hs' => ?_
      · rw [List.getElem?_append_left hlt]
        exact holds
      · by_cases hj' : j < (before ++ [s]).length
        · rw [List.getElem?_append_left hj'] at hs'
          exact inside j s' hj hs'
        · rw [List.getElem?_append_right (by omega)] at hs'
          have hmem := List.mem_of_getElem? hs'
          rw [List.mem_singleton] at hmem
          rw [hmem]
          exact began

theorem record (h : Holds interval now told number t) (hlater : now ≤ later) (p : Point) :
    ∃ number', number ≤ number' ∧
      Holds interval later (told ++ [⟨p, later⟩]) number' (t.record p later).2 := by
  obtain ⟨number', hle, hnow⟩ := h.promote hlater
  unfold ThrottledPointer.record
  cases hwindow : (t.promote later).inWindow later with
  | true =>
      have hstart : ∃ start, (t.promote later).acceptedAt = some start := by
        unfold inWindow at hwindow
        split at hwindow
        · exact ⟨_, ‹_›⟩
        · cases hwindow
      obtain ⟨start, hstart⟩ := hstart
      refine ⟨number', hle, ?_⟩
      simp only [hwindow, if_true]
      exact hnow.wait hstart p
  | false =>
      refine ⟨told.length, Nat.le_trans hle hnow.number_le, ?_⟩
      simp only [hwindow, Bool.false_eq_true, if_false, hnow.interval_eq]
      exact .last (s := ⟨p, later⟩) (Int.le_refl _)

theorem ask (h : Holds interval now told number t) (q : Query) (hlater : now ≤ q.time) :
    ∃ number', number ≤ number' ∧
      Holds interval q.time (told ++ samples [q]) number' (t.ask q).2 := by
  cases q with
  | record p later => exact h.record hlater p
  | read later =>
      rw [samples_read, List.append_nil]
      exact h.promote hlater

/-- From query to query the numbers of the samples that hold do not go back. -/
theorem numbers {qs : List Query} (h : Holds interval now told number t)
    (hlater : ∀ q ∈ qs, now ≤ q.time) (horder : InOrder qs) :
    ∃ numbers : List Nat, numbers.length = qs.length ∧ (number :: numbers).Pairwise (· ≤ ·) ∧
      ∀ (i : Nat) (q : Query) (number' : Nat), qs[i]? = some q → numbers[i]? = some number' →
        Holds interval q.time (told ++ samples (qs.take (i + 1))) number'
          (t.after (qs.take (i + 1))) := by
  induction qs generalizing now told number t with
  | nil => exact ⟨[], rfl, List.pairwise_singleton _ _, nofun⟩
  | cons q qs ih =>
      obtain ⟨hfirst, hrest⟩ := List.pairwise_cons.mp horder
      obtain ⟨number', hle, hnext⟩ := h.ask q (hlater q List.mem_cons_self)
      obtain ⟨numbers, hlength, hpairwise, hholds⟩ := ih hnext hfirst hrest
      refine ⟨number' :: numbers, by simp [hlength], ?_, ?_⟩
      · refine List.pairwise_cons.mpr ⟨fun n hn => ?_, hpairwise⟩
        rcases List.mem_cons.mp hn with rfl | hn
        · exact hle
        · exact Nat.le_trans hle (List.rel_of_pairwise_cons hpairwise hn)
      · intro i q' n hq' hn
        cases i with
        | zero =>
            cases hq'
            cases hn
            exact hnext
        | succ i =>
            have hat := hholds i q' n hq' hn
            rw [List.append_assoc, ← samples_append] at hat
            exact hat

end Holds

/-! ## What a read finds -/

/-- What a read at a time finds, of the samples that were told before it. -/
structure Finds (interval : Nat) (now : Int) (told : List Sample) (number : Nat) (p : Point) :
    Prop where
  nothing : told = [] → p = Point.zero
  /-- It finds the sample of that number. -/
  sample : told ≠ [] → ∃ s, told[number]? = some s ∧ p = s.point
  /-- No sample that was recorded a window ago or earlier has a higher number. -/
  recent : ∀ (j : Nat) (s : Sample), told[j]? = some s → s.time ≤ now - interval → j ≤ number
  /-- The last sample is found from the end of a window after it on. -/
  last : ∀ s, told.getLast? = some s → s.time ≤ now - interval → p = s.point

theorem Holds.finds {interval number : Nat} {now : Int} {told : List Sample} {t : ThrottledPointer}
    (h : Holds interval now told number t) (hpromoted : t.promote now = t) :
    Finds interval now told number t.position := by
  have hrecent : ∀ (j : Nat) (s : Sample), told[j]? = some s → s.time ≤ now - interval →
      j ≤ number := by
    intro j s hs hold
    have hlt := (List.getElem?_eq_some_iff.mp hs).1
    cases h with
    | nothing => cases hs
    | last began =>
        simp only [List.length_append, List.length_singleton] at hlt
        omega
    | @waiting before s' held number start began holds inside =>
        -- the window is open, or the sample would not wait any more
        have hopen : now < start + interval := by
          refine Int.lt_of_not_ge fun hdue => ?_
          rw [promote_of_le rfl rfl hdue] at hpromoted
          exact nomatch congrArg pending hpromoted
        refine Nat.le_of_not_lt fun hj => ?_
        have := inside j s hj hs
        omega
  have hsample : told ≠ [] → ∃ s, told[number]? = some s ∧ t.position = s.point := by
    intro hne
    cases h with
    | nothing => exact absurd rfl hne
    | last began => exact ⟨_, by simp, rfl⟩
    | waiting began holds inside =>
        have hlt := (List.getElem?_eq_some_iff.mp holds).1
        exact ⟨_, by rw [List.getElem?_append_left hlt]; exact holds, rfl⟩
  refine ⟨?_, hsample, hrecent, ?_⟩
  · intro hnil
    cases h with
    | nothing => rfl
    | last began => simp at hnil
    | waiting began holds inside => simp at hnil
  · intro s hs hold
    have hne : told ≠ [] := by
      rintro rfl
      cases hs
    obtain ⟨s', hs', hposition⟩ := hsample hne
    rw [List.getLast?_eq_getElem?] at hs
    have hle := hrecent _ s hs hold
    have hlt := (List.getElem?_eq_some_iff.mp hs').1
    obtain rfl : number = told.length - 1 := by omega
    rw [hs] at hs'
    cases hs'
    exact hposition

theorem responses_getElem? (t : ThrottledPointer) (qs : List Query) (i : Nat) :
    (t.responses qs)[i]? = qs[i]?.map fun q => ((t.after (qs.take i)).ask q).1 := by
  induction qs generalizing t i with
  | nil => rfl
  | cons q qs ih =>
      cases i with
      | zero => rfl
      | succ i => exact ih _ i

/-- Samples can be numbered for the queries, so that each read finds the sample of its number. -/
def KeepsUp (interval : Nat) (qs : List Query) : Prop :=
  ∃ numbers : List Nat, numbers.length = qs.length ∧ numbers.Pairwise (· ≤ ·) ∧
    ∀ (i : Nat) (now : Int) (number : Nat),
      qs[i]? = some (.read now) → numbers[i]? = some number →
        ∃ p, ((ofInterval interval).responses qs)[i]? = some (.held p) ∧
          Finds interval now (samples (qs.take i)) number p

/-- **No sample is lost, and none is found too late.** Every read finds one of the samples recorded
before it, a window later at most, and successive reads never go back. -/
theorem keeps_up (interval : Nat) {qs : List Query} (h : InOrder qs) : KeepsUp interval qs := by
  cases qs with
  | nil => exact ⟨[], rfl, .nil, nofun⟩
  | cons q qs =>
      have hlater : ∀ q' ∈ q :: qs, q.time ≤ q'.time := by
        intro q' hq'
        rcases List.mem_cons.mp hq' with rfl | hq'
        · exact Int.le_refl _
        · exact List.rel_of_pairwise_cons h hq'
      have hstart : Holds interval q.time [] 0 (ofInterval interval) := .nothing
      obtain ⟨numbers, hlength, hpairwise, hholds⟩ := hstart.numbers hlater h
      refine ⟨numbers, hlength, hpairwise.tail, fun i now number hread hnumber => ?_⟩
      have hat := hholds i (.read now) number hread hnumber
      have htake : (q :: qs).take (i + 1) = (q :: qs).take i ++ [.read now] := by
        rw [List.take_add_one, hread]
        rfl
      rw [List.nil_append, htake, samples_append, samples_read, List.append_nil, after_append,
        after_cons, ask_read_snd, after_nil] at hat
      rw [responses_getElem?, hread]
      exact ⟨_, rfl, hat.finds (promote_promote (Int.le_refl now))⟩

/-- A burst of four samples in windows of 200, read before, in and after its windows. -/
def burst : List Query :=
  [.read 0, .record ⟨1.0, 1.0⟩ 10, .record ⟨2.0, 2.0⟩ 60, .record ⟨3.0, 3.0⟩ 110, .read 209, .read 210,
    .record ⟨4.0, 4.0⟩ 409, .read 609, .read 610]

theorem keeps_up_burst : InOrder burst ∧ KeepsUp 200 burst :=
  ⟨by decide, keeps_up 200 (by decide)⟩

end SpriteStage.ThrottledPointer
