import Mathlib.Data.List.Forall2
import SpriteStage.Program.Script

/-!
# The blocks of a program are typed

The kinds of blocks have fields of their own, each to hold a number or a text. Typing takes the blocks
chain by chain and each chain from its head on, and it either gives every block its action or stops at
the first block with a field that does not fit, with the first such field of that block:
`types_blocks`.
-/

namespace SpriteStage

/-! ## Going through a list -/

section Traversal

variable {ε α β : Type} {f : α → Except ε β} {xs : List α}

theorem mapM_eq_ok {ys : List β} :
    xs.mapM f = .ok ys ↔ List.Forall₂ (fun x y => f x = .ok y) xs ys := by
  induction xs generalizing ys with
  | nil => cases ys <;> simp [pure, Except.pure]
  | cons x xs ih =>
      rw [List.mapM_cons]
      cases hx : f x with
      | error e => cases ys <;> simp [bind, Except.bind, hx]
      | ok y =>
          cases hxs : xs.mapM f with
          | error e => cases ys <;> simp [bind, Except.bind, ← ih, hx, hxs]
          | ok ys' =>
              cases ys <;> simp [bind, Except.bind, pure, Except.pure, ← ih, hx, hxs]

theorem exists_mapM_eq_ok : (∃ ys, xs.mapM f = .ok ys) ↔ ∀ x ∈ xs, ∃ y, f x = .ok y := by
  simp only [mapM_eq_ok]
  induction xs with
  | nil => simp
  | cons x xs ih =>
      rw [List.forall_mem_cons, ← ih]
      constructor
      · rintro ⟨_, h⟩
        cases h with
        | cons hx hxs => exact ⟨⟨_, hx⟩, _, hxs⟩
      · rintro ⟨⟨y, hx⟩, ys, hxs⟩
        exact ⟨y :: ys, .cons hx hxs⟩

/-- The fault of a list is that of the first item that has one. -/
theorem mapM_eq_error {e : ε} :
    xs.mapM f = .error e ↔ ∃ before x after, xs = before ++ x :: after ∧
      (∀ x' ∈ before, ∃ y, f x' = .ok y) ∧ f x = .error e := by
  induction xs with
  | nil => simp [pure, Except.pure]
  | cons x xs ih =>
      rw [List.mapM_cons]
      cases hx : f x with
      | error e' =>
          constructor
          · intro h
            cases h
            exact ⟨[], x, xs, rfl, nofun, hx⟩
          · rintro ⟨_ | ⟨x', before⟩, z, after, heq, hbefore, hz⟩
            · cases heq
              rw [hx] at hz
              cases hz
              rfl
            · cases heq
              obtain ⟨y, hy⟩ := hbefore x List.mem_cons_self
              rw [hx] at hy
              cases hy
      | ok y =>
          have htail : (do let ys ← xs.mapM f; pure (y :: ys)) = .error e ↔
              xs.mapM f = .error e := by
            cases xs.mapM f <;> simp [bind, Except.bind, pure, Except.pure]
          refine htail.trans (ih.trans ⟨?_, ?_⟩)
          · rintro ⟨before, z, after, rfl, hbefore, hz⟩
            refine ⟨x :: before, z, after, rfl, ?_, hz⟩
            exact List.forall_mem_cons.mpr ⟨⟨y, hx⟩, hbefore⟩
          · rintro ⟨_ | ⟨x', before⟩, z, after, heq, hbefore, hz⟩
            · cases heq
              rw [hx] at hz
              cases hz
            · cases heq
              exact ⟨before, z, after, rfl, (List.forall_mem_cons.mp hbefore).2, hz⟩

end Traversal

/-! ## The fields of a block -/

/-- Whether a value is what was expected: a number, or a text that is one; or a text, a number or a
truth value. -/
def Expectation.admits : Expectation → Json.Value → Bool
  | .number, .num _ => true
  | .number, .str s => (Decimal.trimmedNumber? s).isSome
  | .text, .str _ | .text, .num _ | .text, .bool _ => true
  | _, _ => false

def Block.fault? (b : Block) (field : String × Expectation) : Option ProgramError :=
  match b.field? field.1 with
  | none => some (.missingField b.kind field.1)
  | some v => if field.2.admits v then none else some (.invalidField b.kind field.1 field.2)

/-- The fields of a kind of block, in the order in which they are looked at. -/
def Action.fieldsOf : (kind : String) → List (String × Expectation)
  | "go_to" => [("x_position", .number), ("y_position", .number)]
  | "clockwise" | "anticlockwise" => [("angle", .number)]
  | "glide" => [("seconds", .number), ("x_position", .number), ("y_position", .number)]
  | "glide_random" => [("seconds", .number)]
  | "point_in_direction" => [("direction", .number)]
  | "point_towards" => [("target", .text)]
  | "move" | "set_x" => [("x_position", .number)]
  | "change_x_by" => [("delta_x", .number)]
  | "change_y_by" => [("delta_y", .number)]
  | "set_y" => [("y_position", .number)]
  | "say_for_seconds" | "think_for_seconds" => [("message", .text), ("seconds", .number)]
  | "say" | "think" => [("message", .text)]
  | "change_size" => [("size", .number)]
  | _ => []

/-- Some fields of a block decide whether something comes of it, and what comes of it has a
property. -/
structure Block.Decides {α : Type} (b : Block) (fields : List (String × Expectation))
    (P : α → Prop) (x : Except ProgramError α) : Prop where
  error : ∀ e, x = .error e ↔ fields.findSome? b.fault? = some e
  ok : ∀ a, x = .ok a → P a

namespace Block

variable {α β : Type} {b : Block} {fields later : List (String × Expectation)}

theorem decides_ok {P : α → Prop} {a : α} (h : P a) : b.Decides [] P (.ok a) :=
  ⟨fun _ => ⟨nofun, nofun⟩, fun _ ha => Except.ok.inj ha ▸ h⟩

/-- What is read first is reported first. -/
theorem Decides.bind {P : β → Prop} {x : Except ProgramError α} {k : α → Except ProgramError β}
    (hx : b.Decides fields (fun _ => True) x) (hk : ∀ a, b.Decides later P (k a)) :
    b.Decides (fields ++ later) P (x >>= k) := by
  cases x with
  | error e =>
      refine ⟨fun e' => ?_, nofun⟩
      rw [List.findSome?_append, (hx.error e).mp rfl, Option.some_or, Option.some.injEq]
      exact ⟨Except.error.inj, congrArg _⟩
  | ok a =>
      have hnone : fields.findSome? b.fault? = none := by
        cases hfault : fields.findSome? b.fault? with
        | none => rfl
        | some e => cases (hx.error e).mpr hfault
      refine ⟨fun e => ?_, (hk a).ok⟩
      rw [List.findSome?_append, hnone, Option.none_or]
      exact (hk a).error e

theorem decides_number (b : Block) (field : String) :
    b.Decides [(field, .number)] (fun _ => True) (b.number field) := by
  refine ⟨fun e => ?_, fun _ _ => trivial⟩
  rw [List.findSome?_singleton, number, fault?]
  cases b.field? field with
  | none => simp
  | some v =>
      cases v with
      | str s => cases hs : Decimal.trimmedNumber? s <;> simp [Expectation.admits, hs]
      | _ => simp [Expectation.admits]

theorem decides_text (b : Block) (field : String) :
    b.Decides [(field, .text)] (fun _ => True) (b.text field) := by
  refine ⟨fun e => ?_, fun _ _ => trivial⟩
  rw [List.findSome?_singleton, text, fault?]
  cases b.field? field with
  | none => simp
  | some v =>
      cases v with
      | bool t => cases t <;> simp [Expectation.admits]
      | _ => simp [Expectation.admits]

end Block

theorem Event.name_of_ofName? {name : String} {e : Event} (h : ofName? name = some e) :
    e.name = name := by
  simpa using List.find?_some h

open Block in
/-- The fields of its kind decide whether a block has an action, and the action is of that kind. -/
theorem Action.decides_ofBlock (b : Block) :
    b.Decides (fieldsOf b.kind) (fun a => a.kind = b.kind) (ofBlock b) := by
  have hnumber (field : String) := b.decides_number field
  have htext (field : String) := b.decides_text field
  have hdone {a : Action} (h : a.kind = b.kind) :
      b.Decides [] (fun a => a.kind = b.kind) (Except.ok a) := decides_ok h
  unfold ofBlock
  split
  case h_2 hkind =>
    rw [hkind] at hdone ⊢
    exact hdone rfl
  case h_3 hkind | h_4 hkind | h_6 hkind | h_7 hkind | h_9 hkind | h_10 hkind | h_11 hkind |
      h_12 hkind | h_13 hkind | h_18 hkind =>
    rw [hkind] at hdone ⊢
    exact (hnumber _).bind fun _ => hdone rfl
  case h_1 hkind =>
    rw [hkind] at hdone ⊢
    exact (hnumber _).bind fun _ => (hnumber _).bind fun _ => hdone rfl
  case h_5 hkind =>
    rw [hkind] at hdone ⊢
    exact (hnumber _).bind fun _ => (hnumber _).bind fun _ => (hnumber _).bind fun _ => hdone rfl
  case h_8 hkind | h_15 hkind | h_17 hkind =>
    rw [hkind] at hdone ⊢
    exact (htext _).bind fun _ => hdone rfl
  case h_14 hkind | h_16 hkind =>
    rw [hkind] at hdone ⊢
    exact (htext _).bind fun _ => (hnumber _).bind fun _ => hdone rfl
  case h_19 =>
    -- none of the kinds that have fields
    have hfields : fieldsOf b.kind = [] := by
      unfold fieldsOf
      split <;> first | rfl | contradiction
    rw [hfields]
    split
    case h_1 event hevent => exact hdone (Event.name_of_ofName? hevent)
    case h_2 => exact hdone rfl

def Block.Fits (b : Block) (field : String × Expectation) : Prop :=
  ∃ v, b.field? field.1 = some v ∧ field.2.admits v = true

/-- The first field of a block that is missing or does not fit, as an error that names both. -/
def Block.Fails (b : Block) (e : ProgramError) : Prop :=
  ∃ before field after, Action.fieldsOf b.kind = before ++ field :: after ∧
    (∀ f ∈ before, b.Fits f) ∧
    (b.field? field.1 = none ∧ e = .missingField b.kind field.1 ∨
      ∃ v, b.field? field.1 = some v ∧ field.2.admits v = false ∧
        e = .invalidField b.kind field.1 field.2)

section

variable {b : Block} {e : ProgramError} {field : String × Expectation}

theorem Block.fault?_eq_none : b.fault? field = none ↔ b.Fits field := by
  rw [fault?, Fits]
  cases b.field? field.1 with
  | none => simp
  | some v => simp

theorem Block.fault?_eq_some : b.fault? field = some e ↔
    b.field? field.1 = none ∧ e = .missingField b.kind field.1 ∨
      ∃ v, b.field? field.1 = some v ∧ field.2.admits v = false ∧
        e = .invalidField b.kind field.1 field.2 := by
  rw [fault?]
  cases b.field? field.1 with
  | none => simp [eq_comm (b := e)]
  | some v => simp [eq_comm (b := e)]

theorem Action.ofBlock_eq_error : ofBlock b = .error e ↔ b.Fails e := by
  rw [(decides_ofBlock b).error, List.findSome?_eq_some_iff, Block.Fails]
  simp only [Block.fault?_eq_none, Block.fault?_eq_some, and_comm]

theorem Action.ofBlock_eq_ok {a : Action} :
    ofBlock b = .ok a ↔ ofBlock b = .ok a ∧ a.kind = b.kind :=
  ⟨fun h => ⟨h, (decides_ofBlock b).ok a h⟩, And.left⟩

end

/-- The first block that has no action, and its error. -/
def Block.FirstFails (bs : List Block) (e : ProgramError) : Prop :=
  ∃ before b after, bs = before ++ b :: after ∧ (∀ b' ∈ before, ∃ a, Action.ofBlock b' = .ok a) ∧
    b.Fails e

theorem Action.mapM_ofBlock_eq_error {bs : List Block} {e : ProgramError} :
    bs.mapM ofBlock = .error e ↔ Block.FirstFails bs e := by
  simp only [mapM_eq_error, Block.FirstFails, ofBlock_eq_error]

/-! ## Chains and programs -/

/-- A script has the actions of the blocks of a chain, in order and each of the kind of its block. -/
def Script.Types (c : Chain) (s : Script) : Prop :=
  List.Forall₂ (fun b a => Action.ofBlock b = .ok a ∧ a.kind = b.kind) c.blocks s.actions

theorem Script.map_actions_ofChain (c : Chain) :
    (ofChain c).map actions = c.blocks.mapM Action.ofBlock := by
  rw [ofChain, Chain.blocks, List.mapM_cons]
  cases Action.ofBlock c.head with
  | error e => rfl
  | ok a => cases c.rest.mapM Action.ofBlock <;> rfl

theorem Script.ofChain_eq_ok {c : Chain} {s : Script} : ofChain c = .ok s ↔ Types c s := by
  simp only [Types, ← Action.ofBlock_eq_ok, ← mapM_eq_ok, ← map_actions_ofChain]
  obtain ⟨head, rest⟩ := s
  cases ofChain c with
  | error e => simp [Except.map]
  | ok s' =>
      obtain ⟨head', rest'⟩ := s'
      simp [Except.map, actions]

theorem Script.exists_ofChain_eq_ok {c : Chain} :
    (∃ s, ofChain c = .ok s) ↔ ∀ b ∈ c.blocks, ∃ a, Action.ofBlock b = .ok a := by
  rw [← exists_mapM_eq_ok, ← map_actions_ofChain]
  cases ofChain c <;> simp [Except.map]

namespace Program

/-- All blocks are typed in the order in which they stand. -/
theorem map_actions_mapM (chains : List Chain) :
    (chains.mapM Script.ofChain).map (List.flatMap Script.actions) =
      (chains.flatMap Chain.blocks).mapM Action.ofBlock := by
  induction chains with
  | nil => rfl
  | cons c chains ih =>
      rw [List.flatMap_cons, List.mapM_append, ← ih, ← Script.map_actions_ofChain, List.mapM_cons]
      cases Script.ofChain c with
      | error e => rfl
      | ok s => cases chains.mapM Script.ofChain <;> rfl

theorem ofChains_eq_error {chains : List Chain} {e : ProgramError} :
    ofChains chains = .error e ↔
      (chains.flatMap Chain.blocks).mapM Action.ofBlock = .error e := by
  rw [← map_actions_mapM, ofChains]
  cases chains.mapM Script.ofChain <;> simp [Except.map]

theorem ofChains_eq_ok {chains : List Chain} {p : Program} :
    ofChains chains = .ok p ↔ chains.mapM Script.ofChain = .ok p.scripts := by
  rw [ofChains]
  obtain ⟨scripts⟩ := p
  cases chains.mapM Script.ofChain <;> simp [Except.map]

/-- **Typing keeps the program and reports the first fault.** There is a program just if every block of
every chain has an action. It has a script for each chain, in the same order, and the actions of a
script are those of the blocks of its chain, in order and each of the kind of its block. Else the error
is that of the first block that has none, chain by chain and from the head on, and of the first of its
fields that is missing or does not fit. -/
theorem types_blocks (chains : List Chain) :
    ((∃ p, ofChains chains = .ok p) ↔
      ∀ c ∈ chains, ∀ b ∈ c.blocks, ∃ a, Action.ofBlock b = .ok a) ∧
    (∀ p, ofChains chains = .ok p ↔ List.Forall₂ Script.Types chains p.scripts) ∧
    (∀ e, ofChains chains = .error e ↔ Block.FirstFails (chains.flatMap Chain.blocks) e) := by
  refine ⟨?_, fun p => ?_, fun e => ?_⟩
  · calc
      _ ↔ ∃ scripts, chains.mapM Script.ofChain = .ok scripts := by
        constructor
        · rintro ⟨p, hp⟩
          exact ⟨p.scripts, ofChains_eq_ok.mp hp⟩
        · rintro ⟨scripts, hscripts⟩
          exact ⟨⟨scripts⟩, ofChains_eq_ok.mpr hscripts⟩
      _ ↔ ∀ c ∈ chains, ∃ s, Script.ofChain c = .ok s := exists_mapM_eq_ok
      _ ↔ ∀ c ∈ chains, ∀ b ∈ c.blocks, ∃ a, Action.ofBlock b = .ok a := by
        simp only [Script.exists_ofChain_eq_ok]
  · simp only [ofChains_eq_ok, mapM_eq_ok, Script.ofChain_eq_ok]
  · rw [ofChains_eq_error, Action.mapM_ofBlock_eq_error]

/-- Of two faults of a block the one of the field that its kind names first is reported. -/
example : ofChains [⟨⟨"when_flag_clicked", none, []⟩,
    [⟨"glide", none, [("x_position", .str "far")]⟩]⟩] =
      .error (.missingField "glide" "seconds") := rfl

end Program

end SpriteStage
