import Mathlib.Data.List.Nodup
import Mathlib.Data.List.Perm.Basic
import SpriteStage.Json.Reading
import SpriteStage.Proofs.Json.Following

/-!
# Records laid over a draft

A record of which every field may be missing is read from an object as its draft with the given
values laid over it: `Lawful.readRecord_eq_ok`. What is said about each slot mentions the entry of
its own key only, so neither the order of the entries nor a foreign one among them matters:
`Overlays.perm`, `overlays_cons_foreign`.
-/

namespace SpriteStage.Json

/-- A part of the record `σ`, and the key that it has in a text. -/
structure Slot (σ α : Type) where
  key : String
  get : σ → α
  set : α → σ → σ

structure Place (σ : Type) where
  {α : Type}
  slot : Slot σ α
  read : Tree → Except Fault α

def Place.field {σ : Type} (p : Place σ) : Field σ :=
  Field.of p.slot.key .optional p.read p.slot.set

@[simp] theorem Place.field_key {σ : Type} (p : Place σ) : p.field.key = p.slot.key := rfl

@[simp] theorem Place.field_presence {σ : Type} (p : Place σ) : p.field.presence = .optional := rfl

variable {σ : Type}

/-- A record is made of its places: each has its own key, they do not overlap, and two records that
agree in all of them are the same. -/
structure Lawful (places : List (Place σ)) : Prop where
  keys : (places.map fun p => p.slot.key).Nodup
  get_set : ∀ p ∈ places, ∀ a r, p.slot.get (p.slot.set a r) = a
  get_set_of_ne : ∀ p ∈ places, ∀ q ∈ places, p.slot.key ≠ q.slot.key →
    ∀ a r, q.slot.get (p.slot.set a r) = q.slot.get r
  ext : ∀ r r', (∀ p ∈ places, p.slot.get r = p.slot.get r') → r = r'

def HasKey (key : String) (e : Tree × Tree) : Prop := e.1.readKey = .ok key

theorem HasKey.eq {key key' : String} {e : Tree × Tree} (h : HasKey key e) (h' : HasKey key' e) :
    key = key' :=
  Except.ok.inj (h.symm.trans h')

/-- The record `r` is the draft with the values of the entries laid over it. -/
structure Overlays (places : List (Place σ)) (entries : List (Tree × Tree)) (draft r : σ) :
    Prop where
  /-- Every key is a string of characters, and what nobody wants is well formed. -/
  readable : ∀ e ∈ entries, ∃ key, HasKey key e ∧
    ((∀ p ∈ places, p.slot.key ≠ key) → e.2.skip = .ok ())
  once : entries.Pairwise fun e e' =>
    ∀ p ∈ places, ¬ (HasKey p.slot.key e ∧ HasKey p.slot.key e')
  given : ∀ p ∈ places, ∀ e ∈ entries, HasKey p.slot.key e → p.read e.2 = .ok (p.slot.get r)
  missing : ∀ p ∈ places, (∀ e ∈ entries, ¬ HasKey p.slot.key e) →
    p.slot.get r = p.slot.get draft

variable {places : List (Place σ)} {entries entries' : List (Tree × Tree)} {draft r : σ}
  {e : Tree × Tree} {p : Place σ} {key : String}

/-- The order of the entries does not matter. -/
theorem Overlays.perm (h : Overlays places entries draft r) (hperm : entries.Perm entries') :
    Overlays places entries' draft r where
  readable e he := h.readable e (hperm.mem_iff.mpr he)
  once := (hperm.pairwise_iff fun hxy q hq hyx => hxy q hq hyx.symm).mp h.once
  given q hq e he := h.given q hq e (hperm.mem_iff.mpr he)
  missing q hq hnone := h.missing q hq fun e he => hnone e (hperm.mem_iff.mp he)

theorem overlays_perm (hperm : entries.Perm entries') :
    Overlays places entries draft r ↔ Overlays places entries' draft r :=
  ⟨fun h => h.perm hperm, fun h => h.perm hperm.symm⟩

/-- A foreign entry is passed over. -/
theorem overlays_cons_foreign (hkey : HasKey key e)
    (hforeign : ∀ p ∈ places, p.slot.key ≠ key) :
    Overlays places (e :: entries) draft r ↔
      e.2.skip = .ok () ∧ Overlays places entries draft r := by
  have hnot {q : Place σ} (hq : q ∈ places) : ¬ HasKey q.slot.key e := fun h =>
    hforeign q hq (h.eq hkey)
  constructor
  · intro h
    obtain ⟨key', hkey', hskip⟩ := h.readable _ List.mem_cons_self
    refine ⟨hskip (hkey'.eq hkey ▸ hforeign), ?_⟩
    constructor
    case readable => exact fun e he => h.readable e (.tail _ he)
    case once => exact (List.pairwise_cons.mp h.once).2
    case given => exact fun q hq e he => h.given q hq e (.tail _ he)
    case missing =>
      intro q hq hnone
      exact h.missing q hq (List.forall_mem_cons.mpr ⟨hnot hq, hnone⟩)
  · rintro ⟨hskip, h⟩
    constructor
    case readable => exact List.forall_mem_cons.mpr ⟨⟨key, hkey, fun _ => hskip⟩, h.readable⟩
    case once => exact List.pairwise_cons.mpr ⟨fun e _ q hq hboth => hnot hq hboth.1, h.once⟩
    case given =>
      intro q hq
      exact List.forall_mem_cons.mpr ⟨fun h => absurd h (hnot hq), h.given q hq⟩
    case missing => exact fun q hq hnone => h.missing q hq (List.forall_mem_cons.mp hnone).2

/-- No entry has the key of a place that was seen already. -/
def Unseen (places : List (Place σ)) (seen : List String) (entries : List (Tree × Tree)) : Prop :=
  ∀ p ∈ places, p.slot.key ∈ seen → ∀ e ∈ entries, ¬ HasKey p.slot.key e

theorem unseen_cons_foreign {seen : List String} (hkey : HasKey key e)
    (hforeign : ∀ p ∈ places, p.slot.key ≠ key) :
    Unseen places seen (e :: entries) ↔ Unseen places seen entries := by
  refine forall₃_congr fun p hp _ => ?_
  rw [List.forall_mem_cons, and_iff_right fun hown => hforeign p hp (hown.eq hkey)]

/-- Behind the entry of a place its key is seen. -/
theorem unseen_cons {seen : List String} (hp : p ∈ places) (hkey : HasKey p.slot.key e)
    (hseen : p.slot.key ∉ seen) :
    Unseen places seen (e :: entries) ∧ (∀ e ∈ entries, ¬ HasKey p.slot.key e) ↔
      Unseen places (p.slot.key :: seen) entries := by
  constructor
  · rintro ⟨h, hnone⟩ q hq hmem
    rcases List.mem_cons.mp hmem with heq | hmem
    · exact heq ▸ hnone
    · exact fun e he => h q hq hmem e (.tail _ he)
  · refine fun h => ⟨fun q hq hmem => ?_, h p hp List.mem_cons_self⟩
    refine List.forall_mem_cons.mpr ⟨fun hown => ?_, h q hq (.tail _ hmem)⟩
    exact hseen (hown.eq hkey ▸ hmem)

theorem find?_foreign (hforeign : ∀ p ∈ places, p.slot.key ≠ key) :
    (places.map Place.field).find? (fun f => f.key = key) = none := by
  refine List.find?_eq_none.mpr (List.forall_mem_map.mpr fun p hp htrue => ?_)
  exact hforeign p hp (of_decide_eq_true htrue)

namespace Lawful

variable (hplaces : Lawful places)
include hplaces

/-- Keys tell places apart. -/
theorem eq_of_key {q : Place σ} (hp : p ∈ places) (hq : q ∈ places)
    (h : p.slot.key = q.slot.key) : p = q :=
  List.inj_on_of_nodup_map hplaces.keys hp hq h

theorem overlays_nil : Overlays places [] draft r ↔ draft = r := by
  constructor
  · exact fun h => hplaces.ext draft r fun p hp => (h.missing p hp nofun).symm
  · rintro rfl
    exact ⟨nofun, .nil, fun _ _ => nofun, fun _ _ _ => rfl⟩

/-- An entry of a place is laid over the draft, and no other entry has its key. -/
theorem overlays_cons (hp : p ∈ places) (hkey : HasKey p.slot.key e) :
    Overlays places (e :: entries) draft r ↔
      ∃ a, p.read e.2 = .ok a ∧ (∀ e ∈ entries, ¬ HasKey p.slot.key e) ∧
        Overlays places entries (p.slot.set a draft) r := by
  constructor
  · intro h
    have hnone : ∀ e ∈ entries, ¬ HasKey p.slot.key e := fun e he hother =>
      (List.pairwise_cons.mp h.once).1 e he p hp ⟨hkey, hother⟩
    refine ⟨p.slot.get r, h.given p hp _ List.mem_cons_self hkey, hnone, ?_⟩
    constructor
    case readable => exact fun e he => h.readable e (.tail _ he)
    case once => exact (List.pairwise_cons.mp h.once).2
    case given => exact fun q hq e he => h.given q hq e (.tail _ he)
    case missing =>
      intro q hq hmissing
      -- in its own place the draft holds the value already
      by_cases hpq : p.slot.key = q.slot.key
      · obtain rfl := hplaces.eq_of_key hp hq hpq
        exact (hplaces.get_set p hp _ draft).symm
      · rw [hplaces.get_set_of_ne p hp q hq hpq]
        refine h.missing q hq (List.forall_mem_cons.mpr ⟨fun hown => ?_, hmissing⟩)
        exact hpq (hkey.eq hown)
  · rintro ⟨a, hread, hnone, h⟩
    constructor
    case readable =>
      refine List.forall_mem_cons.mpr ⟨⟨_, hkey, fun hforeign => ?_⟩, h.readable⟩
      exact absurd rfl (hforeign p hp)
    case once =>
      refine List.pairwise_cons.mpr ⟨fun e he q _ hboth => ?_, h.once⟩
      exact hnone e he (hkey.eq hboth.1 ▸ hboth.2)
    case given =>
      intro q hq
      refine List.forall_mem_cons.mpr ⟨fun hown => ?_, h.given q hq⟩
      obtain rfl := hplaces.eq_of_key hp hq (hkey.eq hown)
      rw [h.missing p hp hnone, hplaces.get_set p hp]
      exact hread
    case missing =>
      intro q hq hmissing
      obtain ⟨hown, hrest⟩ := List.forall_mem_cons.mp hmissing
      rw [h.missing q hq hrest]
      exact hplaces.get_set_of_ne p hp q hq (fun hpq => hown (hpq ▸ hkey)) a draft

/-! ## Reading -/

theorem find?_field (hp : p ∈ places) :
    (places.map Place.field).find? (fun f => f.key = p.slot.key) = some p.field := by
  cases hfind : (places.map Place.field).find? fun f => f.key = p.slot.key with
  | none =>
      have hne := List.find?_eq_none.mp hfind p.field (List.mem_map_of_mem hp)
      simp at hne
  | some f =>
      obtain ⟨q, hq, rfl⟩ := List.mem_map.mp (List.mem_of_find?_eq_some hfind)
      have hkey := List.find?_some hfind
      rw [hplaces.eq_of_key hq hp (of_decide_eq_true hkey)]

/-- The entries are read as the draft with their values laid over it, if none has a key that was
seen already. -/
theorem readEntries_eq_ok {seen : List String} :
    (∃ seen', Tree.readEntries (places.map Place.field) seen draft entries = .ok (seen', r)) ↔
      Unseen places seen entries ∧ Overlays places entries draft r := by
  induction entries generalizing seen draft with
  | nil =>
      rw [hplaces.overlays_nil]
      simp [Tree.readEntries, Unseen]
  | cons e entries ih =>
      obtain ⟨k, v⟩ := e
      cases hkey : k.readKey with
      | error f =>
          simp only [Tree.readEntries, hkey, reduceCtorEq, exists_false, false_iff]
          rintro ⟨-, h⟩
          obtain ⟨key, hhas, -⟩ := h.readable _ List.mem_cons_self
          exact nomatch hkey.symm.trans hhas
      | ok key =>
          have hhas : HasKey key (k, v) := hkey
          by_cases hforeign : ∀ p ∈ places, p.slot.key ≠ key
          · rw [overlays_cons_foreign hhas hforeign, unseen_cons_foreign hhas hforeign]
            simp only [Tree.readEntries, hkey, find?_foreign hforeign]
            cases hskip : v.skip with
            | error f => simp
            | ok _ => simpa using ih
          · simp only [not_forall, not_not] at hforeign
            obtain ⟨p, hp, rfl⟩ := hforeign
            rw [hplaces.overlays_cons hp hhas]
            simp only [Tree.readEntries, hkey, hplaces.find?_field hp]
            by_cases hseen : p.slot.key ∈ seen
            · simp only [List.contains_iff_mem.mpr hseen, if_true, reduceCtorEq, exists_false,
                false_iff]
              exact fun h => h.1 p hp hseen _ List.mem_cons_self hhas
            · have hcontains : seen.contains p.slot.key = false := by simpa using hseen
              simp only [hcontains, Bool.false_eq_true, if_false, Place.field, Field.of]
              cases hread : p.read v with
              | error f => simp [Except.map]
              | ok a =>
                  simp only [Except.map, Except.ok.injEq, exists_eq_left']
                  rw [← and_assoc, unseen_cons hp hhas hseen]
                  exact ih

/-- **A record is its draft with the given values laid over it.** -/
theorem readRecord_eq_ok :
    Tree.readRecord (places.map Place.field) draft (.obj entries .closed) = .ok r ↔
      Overlays places entries draft r := by
  have hentries : (∃ seen, Tree.readEntries (places.map Place.field) [] draft entries =
      .ok (seen, r)) ↔ Overlays places entries draft r :=
    hplaces.readEntries_eq_ok.trans (and_iff_right fun _ _ => nofun)
  rw [← hentries]
  simp [Tree.readRecord, bind_eq_ok, Tail.check, pure, Except.pure]

end Lawful

end SpriteStage.Json
