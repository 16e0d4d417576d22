import Mathlib.Data.List.Induction
import SpriteStage.Proofs.Sprite.Slots

/-!
# What observers notice

An observer remembers the version of the store that it looked at last, and every operation that may
change the sprite makes a new version. The two clears decide at once whether they reset their slot
and whether they make a new version. So an observer is told of a change just if there was an
operation that may have made one, and an observer that is not told has seen the sprite as it is:
`observers_miss_nothing`.
-/

namespace SpriteStage

inductive StoreOperation
  /-- Changes the sprite in some way. -/
  | write (mutate : Motion → Motion)
  /-- A step of a run, which changes the sprite in some way and reports something. -/
  | step (run : Stamp) (transition : Motion → Motion × Effect)
  | clear (slot : Slot) (run : Stamp)
  | restore (entry : Snapshot)
  | reset
  | push (entry : Snapshot)
  | pop
  | snapshot

namespace Store

def perform (s : Store) : StoreOperation → Store
  | .write mutate => s.write (mutate s.motion)
  | .step run transition => s.applyStep run (transition s.motion).1 (transition s.motion).2
  | .clear slot run => s.clear slot run
  | .restore entry => s.restore entry
  | .reset => s.reset
  | .push entry => s.push entry
  | .pop => (s.pop.map Prod.snd).getD s
  | .snapshot => s

/-- Whether observers are told of an operation. A clear answers whether its run owned the slot, and
they are told of it if the answer is yes. -/
def tells (s : Store) : StoreOperation → Bool
  | .write _ | .step _ _ | .restore _ | .reset => true
  | .clear slot run => s.owns slot run
  | .push _ | .pop | .snapshot => false

theorem version_clear_of_owns {s : Store} {slot : Slot} {run : Stamp} (h : s.owns slot run = true) :
    (s.clear slot run).version = s.version + 1 := by
  cases slot with
  | text =>
      have howns : s.ownsText run = true := h
      rw [clear, clearText, if_pos howns]
  | animation =>
      have howns : s.ownsAnimation run = true := h
      rw [clear, clearAnimation, if_pos howns]

theorem motion_pop (s : Store) : ((s.pop.map Prod.snd).getD s).motion = s.motion ∧
    ((s.pop.map Prod.snd).getD s).version = s.version := by
  cases h : s.history with
  | nil =>
      rw [pop_of_nil h]
      exact ⟨rfl, rfl⟩
  | cons entry older =>
      rw [pop_of_cons h]
      exact ⟨rfl, rfl⟩

/-- An operation that observers are told of makes a new version. -/
theorem version_perform_of_tells {s : Store} {op : StoreOperation} (h : s.tells op = true) :
    (s.perform op).version = s.version + 1 := by
  cases op with
  | clear slot run => exact version_clear_of_owns h
  | push | pop | snapshot => cases h
  | _ => rfl

/-- An operation that observers are not told of leaves the sprite as it is. -/
theorem perform_of_not_tells {s : Store} {op : StoreOperation} (h : s.tells op = false) :
    (s.perform op).motion = s.motion ∧ (s.perform op).version = s.version := by
  cases op with
  | clear slot run =>
      have hsame : s.perform (.clear slot run) = s := clear_of_not_owns h
      rw [hsame]
      exact ⟨rfl, rfl⟩
  | pop => exact s.motion_pop
  | push | snapshot => exact ⟨rfl, rfl⟩
  | _ => cases h

end Store

/-! ## Watching a store -/

inductive Occurrence
  | performs (op : StoreOperation)
  | looks

/-- A store, someone who observes it, and the sprite as the observer saw it last. -/
structure Watch where
  store : Store
  observer : Observer
  seen : Motion

namespace Watch

def ofStore (s : Store) : Watch := ⟨s, Observer.of s, s.motion⟩

def after (w : Watch) : Occurrence → Watch
  | .performs op => { w with store := w.store.perform op }
  | .looks => { w with
      observer := (w.observer.look w.store).2
      seen := (w.observer.look w.store).1 }

def run (w : Watch) (es : List Occurrence) : Watch := es.foldl after w

def isTold (w : Watch) : Bool := w.observer.isChanged w.store

theorem run_append_singleton (w : Watch) (es : List Occurrence) (e : Occurrence) :
    w.run (es ++ [e]) = (w.run es).after e := by
  unfold run
  rw [List.foldl_append]
  rfl

theorem isTold_iff {w : Watch} : w.isTold = true ↔ w.observer.seen ≠ w.store.version := bne_iff_ne

theorem isTold_eq_false_iff {w : Watch} :
    w.isTold = false ↔ w.observer.seen = w.store.version := by
  rw [← Bool.not_eq_true, isTold_iff, not_not]

/-- What an observer knows: no version that is yet to come, and the sprite unless it is told of a
change. -/
structure Informed (w : Watch) : Prop where
  seen_le : w.observer.seen ≤ w.store.version
  seen_eq : w.isTold = false → w.store.motion = w.seen

theorem informed_ofStore (s : Store) : (ofStore s).Informed := ⟨Nat.le_refl _, fun _ => rfl⟩

theorem Informed.after {w : Watch} (h : w.Informed) (e : Occurrence) : (w.after e).Informed := by
  cases e with
  | looks => exact ⟨Nat.le_refl _, fun _ => rfl⟩
  | performs op =>
      have hle := h.seen_le
      by_cases htells : w.store.tells op = true
      · have hversion := Store.version_perform_of_tells htells
        constructor
        · show w.observer.seen ≤ (w.store.perform op).version
          omega
        · intro hquiet
          -- the new version is none that was seen
          have hseen : w.observer.seen = (w.store.perform op).version :=
            isTold_eq_false_iff.mp hquiet
          omega
      · obtain ⟨hmotion, hversion⟩ :=
          Store.perform_of_not_tells (Bool.not_eq_true _ ▸ htells)
        constructor
        · show w.observer.seen ≤ (w.store.perform op).version
          omega
        · intro hquiet
          have hseen : w.observer.seen = (w.store.perform op).version :=
            isTold_eq_false_iff.mp hquiet
          show (w.store.perform op).motion = w.seen
          rw [hmotion]
          exact h.seen_eq (isTold_eq_false_iff.mpr (hseen.trans hversion))

theorem Informed.run {w : Watch} (h : w.Informed) (es : List Occurrence) : (w.run es).Informed := by
  induction es using List.reverseRecOn with
  | nil => exact h
  | append_singleton es e ih =>
      rw [run_append_singleton]
      exact ih.after e

/-- An operation tells the observer, unless it has been told already. -/
theorem isTold_after_performs {w : Watch} (h : w.Informed) (op : StoreOperation) :
    (w.after (.performs op)).isTold = true ↔ w.isTold = true ∨ w.store.tells op = true := by
  have hle := h.seen_le
  rw [isTold_iff, isTold_iff]
  show w.observer.seen ≠ (w.store.perform op).version ↔ _
  by_cases htells : w.store.tells op = true
  · have hversion := Store.version_perform_of_tells htells
    exact iff_of_true (by omega) (.inr htells)
  · obtain ⟨-, hversion⟩ := Store.perform_of_not_tells (Bool.not_eq_true _ ▸ htells)
    rw [hversion]
    exact (or_iff_left htells).symm

theorem isTold_after_looks (w : Watch) : (w.after .looks).isTold = false := bne_self_eq_false _

/-- Since the last look there was an operation that observers are told of. -/
def Missed (w : Watch) (es : List Occurrence) : Prop :=
  ∃ earlier op later, es = earlier ++ .performs op :: later ∧ .looks ∉ later ∧
    (w.run earlier).store.tells op = true

theorem missed_append_singleton {w : Watch} {es : List Occurrence} {e : Occurrence} :
    w.Missed (es ++ [e]) ↔ (∃ op, e = .performs op ∧ (w.run es).store.tells op = true) ∨
      e ≠ .looks ∧ w.Missed es := by
  constructor
  · rintro ⟨earlier, op, later, hes, hlooks, htells⟩
    rcases List.eq_nil_or_concat later with rfl | ⟨later, e', rfl⟩
    · obtain ⟨rfl, he⟩ := List.append_inj' hes rfl
      exact .inl ⟨op, List.singleton_inj.mp he, htells⟩
    · rw [List.concat_eq_append] at hes hlooks
      rw [← List.cons_append, ← List.append_assoc] at hes
      obtain ⟨rfl, he⟩ := List.append_inj' hes rfl
      obtain rfl := List.singleton_inj.mp he
      rw [List.mem_append, not_or, List.mem_singleton] at hlooks
      exact .inr ⟨Ne.symm hlooks.2, earlier, op, later, rfl, hlooks.1, htells⟩
  · rintro (⟨op, rfl, htells⟩ | ⟨he, earlier, op, later, rfl, hlooks, htells⟩)
    · exact ⟨es, op, [], rfl, List.not_mem_nil, htells⟩
    · refine ⟨earlier, op, later ++ [e], by simp, ?_, htells⟩
      rw [List.mem_append, not_or, List.mem_singleton]
      exact ⟨hlooks, Ne.symm he⟩

theorem isTold_run_iff (s : Store) (es : List Occurrence) :
    ((ofStore s).run es).isTold = true ↔ (ofStore s).Missed es := by
  induction es using List.reverseRecOn with
  | nil =>
      have htold : ((ofStore s).run []).isTold = false := bne_self_eq_false _
      rw [htold]
      refine iff_of_false nofun ?_
      rintro ⟨earlier, op, later, hes, -⟩
      simp at hes
  | append_singleton es e ih =>
      rw [run_append_singleton, missed_append_singleton]
      cases e with
      | looks =>
          rw [isTold_after_looks]
          simp
      | performs op =>
          rw [isTold_after_performs ((informed_ofStore s).run es), ih, or_comm]
          simp

/-- **Observers miss nothing and are not told of nothing.** After any operations on a store and any
looks at it, an observer is told of a change just if since its last look the sprite was written, a
step was made, a snapshot was restored, the store was reset, or a clear met a slot that its run
owned. If it is not told of a change, it saw the sprite as it is. A clear that does not meet its
slot leaves everything as it was: the store with its owners and snapshots, and what the observer is
told. -/
theorem observers_miss_nothing (s : Store) (es : List Occurrence) :
    (((ofStore s).run es).isTold = true ↔ (ofStore s).Missed es) ∧
    (((ofStore s).run es).isTold = false →
      ((ofStore s).run es).store.motion = ((ofStore s).run es).seen) ∧
    ∀ slot run, ((ofStore s).run es).store.owns slot run = false →
      ((ofStore s).run es).after (.performs (.clear slot run)) = (ofStore s).run es := by
  refine ⟨isTold_run_iff s es, ((informed_ofStore s).run es).seen_eq, fun slot run h => ?_⟩
  have hsame : ((ofStore s).run es).store.perform (.clear slot run) = ((ofStore s).run es).store :=
    Store.clear_of_not_owns h
  rw [after, hsame]

end Watch

end SpriteStage
