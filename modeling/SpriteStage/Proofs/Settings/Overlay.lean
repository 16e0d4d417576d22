import Mathlib.Logic.Relation
import SpriteStage.Proofs.Json.Members
import SpriteStage.Settings

/-!
# Settings are laid over the defaults

A text of settings gives each setting its value or leaves it at its default, whatever else it gives:
`Settings.LaidOver`. The order of the members, members with other keys and space do not matter, in
the text as a whole and in its sections: `Settings.Change`. Both are `Settings.overlays_defaults`.
-/

namespace SpriteStage

open Json

/-! ## The slots of the settings -/

namespace KeyBindings

def slots : List (Slot KeyBindings String) :=
  [⟨"run", run, fun run b => { b with run }⟩,
   ⟨"trigger_key", triggerKey, fun triggerKey b => { b with triggerKey }⟩,
   ⟨"click_sprite", clickSprite, fun clickSprite b => { b with clickSprite }⟩,
   ⟨"undo", undo, fun undo b => { b with undo }⟩,
   ⟨"reset", reset, fun reset b => { b with reset }⟩,
   ⟨"quit", quit, fun quit b => { b with quit }⟩,
   ⟨"fullscreen", fullscreen, fun fullscreen b => { b with fullscreen }⟩]

def places : List (Place KeyBindings) := slots.map fun slot => ⟨slot, Json.Tree.readString⟩

theorem lawful : Lawful places where
  keys := by decide
  get_set := by simp [places, slots]
  get_set_of_ne := by simp [places, slots]
  ext := by
    rintro ⟨⟩ ⟨⟩ h
    simpa [places, slots] using h

end KeyBindings

namespace Timing

def slots : List (Slot Timing Nat) :=
  [⟨"step_delay_ms", stepDelayMs, fun stepDelayMs t => { t with stepDelayMs }⟩,
   ⟨"say_duration_ms", sayDurationMs, fun sayDurationMs t => { t with sayDurationMs }⟩,
   ⟨"pointer_throttle_ms", pointerThrottleMs,
      fun pointerThrottleMs t => { t with pointerThrottleMs }⟩]

def places : List (Place Timing) := slots.map fun slot => ⟨slot, Json.Tree.readNat⟩

theorem lawful : Lawful places where
  keys := by decide
  get_set := by simp [places, slots]
  get_set_of_ne := by simp [places, slots]
  ext := by
    rintro ⟨⟩ ⟨⟩ h
    simpa [places, slots] using h

end Timing

namespace StageSettings

def slots : List (Slot StageSettings Float) :=
  [⟨"width_px", widthPx, fun widthPx s => { s with widthPx }⟩,
   ⟨"height_px", heightPx, fun heightPx s => { s with heightPx }⟩,
   ⟨"px_per_col", pxPerCol, fun pxPerCol s => { s with pxPerCol }⟩,
   ⟨"px_per_row", pxPerRow, fun pxPerRow s => { s with pxPerRow }⟩]

def places : List (Place StageSettings) := slots.map fun slot => ⟨slot, Json.Tree.readFloat⟩

theorem lawful : Lawful places where
  keys := by decide
  get_set := by simp [places, slots]
  get_set_of_ne := by simp [places, slots]
  ext := by
    rintro ⟨⟩ ⟨⟩ h
    simpa [places, slots] using h

end StageSettings

namespace Settings

/-- The places that `Settings.ofTree` reads: the sections, and the seed. -/
def places : List (Place Settings) :=
  [⟨⟨"key_bindings", keyBindings, fun keyBindings s => { s with keyBindings }⟩,
      KeyBindings.ofTree⟩,
   ⟨⟨"timing", timing, fun timing s => { s with timing }⟩, Timing.ofTree⟩,
   ⟨⟨"stage", stage, fun stage s => { s with stage }⟩, StageSettings.ofTree⟩,
   ⟨⟨"seed", seed, fun seed s => { s with seed }⟩, Json.Tree.readOption Json.Tree.readNat⟩]

theorem lawful : Lawful places where
  keys := by decide
  get_set := by simp [places]
  get_set_of_ne := by simp [places]
  ext := by
    rintro ⟨⟩ ⟨⟩ h
    simpa [places] using h

/-! ## What a text gives -/

/-- Each setting has the value that the text gives it, and the default of exactly that setting if
the text gives none. -/
structure LaidOver (text : List Char) (s : Settings) : Prop where
  keyBindings : ∀ slot ∈ KeyBindings.slots,
    Holds text ["key_bindings", slot.key] Quotes (slot.get s.keyBindings) (slot.get {})
  timing : ∀ slot ∈ Timing.slots,
    Holds text ["timing", slot.key] WritesNat (slot.get s.timing) (slot.get {})
  stage : ∀ slot ∈ StageSettings.slots,
    Holds text ["stage", slot.key] WritesFloat (slot.get s.stage) (slot.get {})
  seed : Holds text ["seed"] (WritesOption WritesNat) s.seed none

def sections : List (String × List String) :=
  [("key_bindings", KeyBindings.slots.map Slot.key), ("timing", Timing.slots.map Slot.key),
   ("stage", StageSettings.slots.map Slot.key)]

/-- Where the text gives a section it writes it as an object. -/
def SectionsAreObjects (text : List Char) : Prop :=
  ∀ sec ∈ sections, ∀ v, Given text [sec.1] v → ∃ ms, IsObject ms v

variable {text text' : List Char} {ms : List Member} {s : Settings}

/-- For the sections it is enough to take the text apart in one way. -/
theorem sectionsAreObjects_of_members (hobject : IsObject ms text)
    (h : ∀ m ∈ ms, ∀ sec ∈ sections, Quotes m.name.text sec.1 → ∃ ms', IsObject ms' m.value.text) :
    SectionsAreObjects text := by
  intro sec hsec v hgiven
  obtain ⟨m, hm, hkey, htree, hwell⟩ := hobject.exists_member hgiven
  obtain ⟨ms', hobject'⟩ := h m hm sec hsec hkey
  exact hwell.exists_isObject (htree.symm.trans hobject'.spells.treeOf_eq)

theorem laidOver_of_ofTree (hobject : IsObject ms text) (hsections : SectionsAreObjects text)
    (h : ofTree (treeOf text) = .ok s) : s.LaidOver text where
  keyBindings _ := KeyBindings.lawful.holds_section (fun _ _ hv => hv.quotes)
    (hsections _ (.head _)) (lawful.holds hobject h (.head _))
  timing _ := Timing.lawful.holds_section (fun _ _ hv => hv.writesNat)
    (hsections _ (.tail _ (.head _))) (lawful.holds hobject h (.tail _ (.head _)))
  stage _ := StageSettings.lawful.holds_section (fun _ _ hv => hv.writesFloat)
    (hsections _ (.tail _ (.tail _ (.head _))))
    (lawful.holds hobject h (.tail _ (.tail _ (.head _))))
  seed := (lawful.holds hobject h (.tail _ (.tail _ (.tail _ (.head _))))).imp fun _ _ hv =>
    hv.1.writesOption (fun _ => hv.1.writesNat) hv.2

/-! ## What a text may change -/

/-- One change of a text of settings: of its members, or of the members of a section. What stands in
a member that is not known changes too when the member is taken out and another one is put in. -/
def Change : List Char → List Char → Prop :=
  Json.Change ["key_bindings", "timing", "stage", "seed"] sections

theorem unnoticed_sections : Unnoticed places sections := by
  have hnone {σ : Type} (places : List (Place σ)) : Unnoticed places [] := nofun
  refine List.forall_mem_cons.mpr ⟨?_, List.forall_mem_cons.mpr ⟨?_,
    List.forall_mem_singleton.mpr ?_⟩⟩
  · exact ⟨_, List.mem_cons_self, rfl, fun _ _ _ h =>
      KeyBindings.lawful.readRecord_change (hnone _) h⟩
  · exact ⟨_, .tail _ List.mem_cons_self, rfl, fun _ _ _ h =>
      Timing.lawful.readRecord_change (hnone _) h⟩
  · exact ⟨_, .tail _ (.tail _ List.mem_cons_self), rfl, fun _ _ _ h =>
      StageSettings.lawful.readRecord_change (hnone _) h⟩

/-- However often a text is changed, it is an object and is read the same. -/
theorem ofTree_changes (h : Relation.EqvGen Change text text') :
    ((∃ ms, IsObject ms text) ↔ ∃ ms, IsObject ms text') ∧
      ∀ s, ofTree (treeOf text) = .ok s ↔ ofTree (treeOf text') = .ok s := by
  induction h with
  | rel _ _ h =>
      refine ⟨?_, fun s => lawful.readRecord_change unnoticed_sections h⟩
      exact iff_of_true h.exists_isObject.1 h.exists_isObject.2
  | refl _ => exact ⟨.rfl, fun _ => .rfl⟩
  | symm _ _ _ ih => exact ⟨ih.1.symm, fun s => (ih.2 s).symm⟩
  | trans _ _ _ _ _ ih ih' => exact ⟨ih.1.trans ih'.1, fun s => (ih.2 s).trans (ih'.2 s)⟩

theorem ofText_padded {p : Padded} (h : IsObject ms p.text) :
    ofText (String.ofList p.chars) = .ok s ↔ ofTree (treeOf p.text) = .ok s := by
  rw [ofText, String.toList_ofList, h.spells.padded.ofText, h.spells.treeOf_eq]
  simp [Document.read, bind_eq_ok, pure, Except.pure]

/-- **Settings are laid over the defaults.** In a text of settings that is an object, with its
sections written as objects, every setting is the one that the text gives, or the default of exactly
that setting; and the text may be changed in the order of its members, in members that are not known
and in its space, at both levels and any number of times, without a change to the settings. -/
theorem overlays_defaults {outer : Padded} (hobject : IsObject ms outer.text)
    (hsections : SectionsAreObjects outer.text)
    (h : ofText (String.ofList outer.chars) = .ok s) :
    s.LaidOver outer.text ∧
      ∀ outer' : Padded, Relation.EqvGen Change outer.text outer'.text →
        ofText (String.ofList outer'.chars) = .ok s := by
  have htree := (ofText_padded hobject).mp h
  refine ⟨laidOver_of_ofTree hobject hsections htree, fun outer' hchanges => ?_⟩
  obtain ⟨hiff, hread⟩ := ofTree_changes hchanges
  obtain ⟨ms', hobject'⟩ := hiff.mp ⟨ms, hobject⟩
  exact (ofText_padded hobject').mpr ((hread s).mp htree)

def sampleSeed : Member := plainMember "seed" (Nat.toDigits 10 7)

def sampleDelay : Member := plainMember "step_delay_ms" (Nat.toDigits 10 25)

def sampleTheme : Member := plainMember "theme" ['n', 'u', 'l', 'l']

def sampleTiming : Member := plainMember "timing" (plainObject [sampleDelay])

def changedTiming : Member := plainMember "timing" (plainObject [sampleTheme, sampleDelay])

def spacedTiming : Member :=
  ⟨⟨[], quoted "timing", ['\t'], rfl, rfl⟩,
    ⟨['\n', ' '], plainObject [sampleTheme, sampleDelay], ['\r', '\n'], rfl, rfl⟩⟩

def sampleText : List Char := plainObject [sampleSeed, sampleTiming]

def sampleSettings : Settings := { timing := { stepDelayMs := 25 }, seed := some 7 }

/-- The sample with a member that is not known, in another order and with other space. -/
def sampleChanged : Padded :=
  ⟨['\n'],
    '{' :: ([' '] ++ (commaSeparated ([spacedTiming, sampleSeed].map Member.chars) ++ ['}'])),
    [], rfl, rfl⟩

theorem sound_pair {m m' : Member} (h : m.Sound) (h' : m'.Sound) : ∀ n ∈ [m, m'], n.Sound :=
  List.forall_mem_cons.mpr ⟨h, List.forall_mem_singleton.mpr h'⟩

theorem sound_sampleSeed : sampleSeed.Sound := sound_plainMember "seed" (wellFormed_toDigits 7)

theorem sound_sampleDelay : sampleDelay.Sound :=
  sound_plainMember "step_delay_ms" (wellFormed_toDigits 25)

theorem isObject_sampleTiming : IsObject [sampleDelay] (plainObject [sampleDelay]) :=
  isObject_plainObject (List.forall_mem_singleton.mpr sound_sampleDelay)

theorem sound_sampleTiming : sampleTiming.Sound :=
  sound_plainMember "timing" isObject_sampleTiming.wellFormed

theorem isObject_sampleText : IsObject [sampleSeed, sampleTiming] sampleText :=
  isObject_plainObject (sound_pair sound_sampleSeed sound_sampleTiming)

theorem changes_sample : Relation.EqvGen Change sampleText sampleChanged.text := by
  have hinner : IsObject [sampleTheme, sampleDelay] changedTiming.value.text :=
    isObject_plainObject (sound_pair (sound_plainMember "theme" .null) sound_sampleDelay)
  have htiming : changedTiming.Sound := sound_plainMember "timing" hinner.wellFormed
  have hspaced : spacedTiming.Sound := ⟨htiming.name, hinner.wellFormed⟩
  have hchanged := isObject_plainObject (sound_pair sound_sampleSeed htiming)
  have hreordered := isObject_plainObject (sound_pair htiming sound_sampleSeed)
  have hwithin : Change sampleText (plainObject [sampleSeed, changedTiming]) :=
    .within [sampleSeed] [] sampleTiming changedTiming isObject_sampleText hchanged
      (quotes_quoted "timing") rfl (.tail _ List.mem_cons_self)
      (.insert [] [sampleDelay] sampleTheme isObject_sampleTiming hinner (quotes_quoted "theme")
        (by decide))
  have hreorder : Change (plainObject [sampleSeed, changedTiming])
      (plainObject [changedTiming, sampleSeed]) :=
    .reorder hchanged hreordered (.swap _ _ _)
  have hspace : Change (plainObject [changedTiming, sampleSeed]) sampleChanged.text :=
    .space hreordered (.mk [' '] rfl (sound_pair hspaced sound_sampleSeed)) rfl
  exact .trans _ _ _ (.rel _ _ hwithin) (.trans _ _ _ (.rel _ _ hreorder) (.rel _ _ hspace))

theorem overlays_defaults_sample :
    ofText (String.ofList (bare sampleText).chars) = .ok sampleSettings ∧
      sampleSettings.LaidOver sampleText ∧
        ofText (String.ofList sampleChanged.chars) = .ok sampleSettings := by
  have hobject : IsObject [sampleSeed, sampleTiming] (bare sampleText).text := isObject_sampleText
  have hread : ofText (String.ofList (bare sampleText).chars) = .ok sampleSettings := by
    rw [ofText_padded hobject, hobject.spells.treeOf_eq, List.map_cons, List.map_singleton,
      sampleSeed, entry_plainMember "seed" (spells_nat (k := 7) (by decide)),
      sampleTiming, entry_plainMember "timing" isObject_sampleTiming.spells, List.map_singleton,
      sampleDelay, entry_plainMember "step_delay_ms" (spells_nat (k := 25) (by decide))]
    rfl
  have hsections : SectionsAreObjects (bare sampleText).text := by
    refine sectionsAreObjects_of_members hobject ?_
    refine List.forall_mem_cons.mpr ⟨fun sec hsec hkey => ?_, List.forall_mem_singleton.mpr ?_⟩
    · have hseed : sec.1 = "seed" := (sound_sampleSeed.hasKey_iff.mpr hkey).eq
        (sound_sampleSeed.hasKey_iff.mpr (quotes_quoted "seed"))
      have hnone : ∀ sec ∈ sections, sec.1 ≠ "seed" := by decide
      exact absurd hseed (hnone sec hsec)
    · exact fun _ _ _ => ⟨_, isObject_sampleTiming⟩
  have h := overlays_defaults hobject hsections hread
  exact ⟨hread, h.1, h.2 sampleChanged changes_sample⟩

end Settings

end SpriteStage
