import SpriteStage.Proofs.Json.Meaning
import SpriteStage.Proofs.Json.Records

/-!
# Objects and what they give

What the text of an object gives under a path of keys (`Given`), and what of the text a record does
not notice (`Change`): the order of the members, members that it does not know and space. A record
of optional fields holds what its text gives and else its default: `Lawful.holds`; and a change
that it does not notice leaves it as it is: `Lawful.readRecord_change`.
-/

namespace SpriteStage.Json

/-! ## Objects -/

def Member.entry (m : Member) : Tree × Tree := (treeOf m.name.text, treeOf m.value.text)

variable {ms ms' : List Member} {m : Member} {text text' v : List Char} {key : String}

theorem IsObject.spells (h : IsObject ms text) :
    Spells text (.obj (ms.map Member.entry) .closed) := by
  obtain ⟨space, hspace, hsound⟩ := h
  choose! body hbody htext using fun m hm => (hsound m hm).name
  have hstring (m) (hm : m ∈ ms) := htext m hm ▸ (hbody m hm).isString
  have hentries : ms.map Member.entry =
      ms.map fun m => (.str ⟨readString [] (body m ++ ['"']), .ok ()⟩, treeOf m.value.text) :=
    List.map_congr_left fun m hm => by rw [Member.entry, (hstring m hm).spells.treeOf_eq]
  rw [hentries]
  exact (spells_object (fun m hm => (hstring m hm).padded)
    fun m hm => (hsound m hm).value.spells.padded).space_behind rfl hspace

theorem Member.Sound.hasKey_iff (h : m.Sound) : HasKey key m.entry ↔ Quotes m.name.text key := by
  obtain ⟨w, hw, htext⟩ := h.name
  rw [HasKey, Member.entry, htext, hw.isString.spells.treeOf_eq]
  exact hw.quotes_iff

theorem entry_plainMember (key : String) {t : Tree} (h : Spells v t) :
    (plainMember key v).entry = (.str (.sound key), t) :=
  Prod.ext (isString_quoted key).spells.treeOf_eq h.treeOf_eq

/-- Under a path of keys the text of an object gives the text of a value. -/
inductive Given : List Char → List String → List Char → Prop
  | here (text : List Char) : Given text [] text
  | under {ms : List Member} {m : Member} {text v : List Char} {key : String} {path : List String}
      (h : IsObject ms text) (hm : m ∈ ms) (hkey : Quotes m.name.text key)
      (hv : Given m.value.text path v) : Given text (key :: path) v

theorem given_cons_iff {path : List String} :
    Given text (key :: path) v ↔ ∃ inner, Given text [key] inner ∧ Given inner path v := by
  constructor
  · intro h
    cases h with
    | under h hm hkey hv => exact ⟨_, .under h hm hkey (.here _), hv⟩
  · rintro ⟨inner, hinner, hv⟩
    cases hinner with
    | under h hm hkey hhere =>
        cases hhere
        exact .under h hm hkey hv

/-- What an object gives under a key it gives in one of its members, however it is taken apart. -/
theorem IsObject.exists_member (h : IsObject ms text) (hgiven : Given text [key] v) :
    ∃ m ∈ ms, Quotes m.name.text key ∧ treeOf m.value.text = treeOf v ∧ WellFormed v := by
  cases hgiven with
  | @under ms' m' _ _ _ _ h' hm' hkey hhere =>
      cases hhere
      have hentries : ms'.map Member.entry = ms.map Member.entry := by
        have htree := h'.spells.treeOf_eq.symm.trans h.spells.treeOf_eq
        exact (Tree.obj.inj htree).1
      have hmem : m'.entry ∈ ms.map Member.entry := hentries ▸ List.mem_map_of_mem hm'
      obtain ⟨m, hm, hentry⟩ := List.mem_map.mp hmem
      have hhas : HasKey key m.entry := hentry ▸ (h'.sound hm').hasKey_iff.mpr hkey
      exact ⟨m, hm, (h.sound hm).hasKey_iff.mp hhas, congrArg Prod.snd hentry,
        (h'.sound hm').value⟩

/-- A part has the value that the text gives under the path, and its default if the text gives
none. -/
def Holds {α : Type} (text : List Char) (path : List String) (Means : List Char → α → Prop)
    (a default : α) : Prop :=
  (∀ v, Given text path v → Means v a) ∧ ((∀ v, ¬ Given text path v) → a = default)

section Holds

variable {α β : Type} {path : List String} {Means Means' : List Char → α → Prop} {a d : α}

theorem Holds.imp (h : Holds text path Means a d)
    (himp : ∀ v, Given text path v → Means v a → Means' v a) : Holds text path Means' a d :=
  ⟨fun v hv => himp v hv (h.1 v hv), h.2⟩

/-- A part of a part: its default is the one in the default of the whole, whether the text leaves
out the whole or only the part. -/
theorem Holds.under {get : β → α} {b default : β}
    (h : Holds text [key] (fun v b => Holds v path Means (get b) (get default)) b default) :
    Holds text (key :: path) Means (get b) (get default) := by
  refine ⟨fun v hv => ?_, fun hnone => ?_⟩
  · obtain ⟨inner, hinner, hv⟩ := given_cons_iff.mp hv
    exact (h.1 inner hinner).1 v hv
  · by_cases hinner : ∃ inner, Given text [key] inner
    · obtain ⟨inner, hinner⟩ := hinner
      exact (h.1 inner hinner).2 fun v hv => hnone v (given_cons_iff.mpr ⟨inner, hinner, hv⟩)
    · rw [h.2 (not_exists.mp hinner)]

end Holds

/-! ## Records -/

section Records

variable {σ : Type} {places : List (Place σ)} {draft r : σ} {p : Place σ}

theorem Lawful.readRecord_object (hplaces : Lawful places) (h : IsObject ms text) :
    (treeOf text).readRecord (places.map Place.field) draft = .ok r ↔
      Overlays places (ms.map Member.entry) draft r := by
  rw [h.spells.treeOf_eq, hplaces.readRecord_eq_ok]

/-- Each part of a record that is read has the value that the text gives under its key, and the
value of the draft if the text gives none. -/
theorem Lawful.holds (hplaces : Lawful places) (h : IsObject ms text)
    (hread : (treeOf text).readRecord (places.map Place.field) draft = .ok r) (hp : p ∈ places) :
    Holds text [p.slot.key] (fun v a => WellFormed v ∧ p.read (treeOf v) = .ok a)
      (p.slot.get r) (p.slot.get draft) := by
  constructor
  · intro v hgiven
    cases hgiven with
    | under h hm hkey hhere =>
        cases hhere
        have hoverlay := (hplaces.readRecord_object h).mp hread
        have hhas := (h.sound hm).hasKey_iff.mpr hkey
        exact ⟨(h.sound hm).value, hoverlay.given p hp _ (List.mem_map_of_mem hm) hhas⟩
  · intro hnone
    refine ((hplaces.readRecord_object h).mp hread).missing p hp ?_
    refine List.forall_mem_map.mpr fun m hm hhas => hnone m.value.text ?_
    exact .under h hm ((h.sound hm).hasKey_iff.mp hhas) (.here _)

/-- The parts of a section, which is itself a part of what the text gives. Their values are all read
alike. -/
theorem Lawful.holds_section {α : Type} {slots : List (Slot σ α)} {read : Tree → Except Fault α}
    {Means : List Char → α → Prop} {slot : Slot σ α}
    (hplaces : Lawful (slots.map fun slot => ⟨slot, read⟩))
    (hmeans : ∀ v a, WellFormed v → read (treeOf v) = .ok a → Means v a)
    (hobjects : ∀ v, Given text [key] v → ∃ ms, IsObject ms v)
    (h : Holds text [key] (fun v r => WellFormed v ∧ (treeOf v).readRecord
      ((slots.map fun slot => ⟨slot, read⟩).map Place.field) draft = .ok r) r draft)
    (hslot : slot ∈ slots) : Holds text [key, slot.key] Means (slot.get r) (slot.get draft) := by
  refine .under (h.imp fun v hgiven hread => ?_)
  obtain ⟨ms, hobject⟩ := hobjects v hgiven
  have hheld := hplaces.holds hobject hread.2 (List.mem_map_of_mem hslot)
  exact hheld.imp fun v _ hv => hmeans v _ hv.1 hv.2

end Records

/-! ## Changes that are not noticed -/

/-- One change of the text of an object that a record with the keys `known` does not notice. Its
members in `sections` are records themselves, each with the keys that stand there. -/
inductive Change : (known : List String) → (sections : List (String × List String)) →
    List Char → List Char → Prop
  /-- Around keys, values and brackets there is other space. -/
  | space {known : List String} {sections : List (String × List String)} {ms ms' : List Member}
      {text text' : List Char} (h : IsObject ms text) (h' : IsObject ms' text')
      (hsame : ms.map (fun m => (m.name.text, m.value.text)) =
        ms'.map fun m => (m.name.text, m.value.text)) : Change known sections text text'
  /-- The members stand in another order. -/
  | reorder {known : List String} {sections : List (String × List String)} {ms ms' : List Member}
      {text text' : List Char} (h : IsObject ms text) (h' : IsObject ms' text')
      (hperm : ms.Perm ms') : Change known sections text text'
  /-- There is one more member, whose key is not known. -/
  | insert {known : List String} {sections : List (String × List String)}
      {text text' : List Char} {key : String} (before after : List Member) (m : Member)
      (h : IsObject (before ++ after) text) (h' : IsObject (before ++ m :: after) text')
      (hkey : Quotes m.name.text key) (hknown : key ∉ known) : Change known sections text text'
  /-- A section is changed in its turn. -/
  | within {known keys : List String} {sections : List (String × List String)}
      {text text' : List Char} {key : String} (before after : List Member) (m m' : Member)
      (h : IsObject (before ++ m :: after) text) (h' : IsObject (before ++ m' :: after) text')
      (hkey : Quotes m.name.text key) (hname : m'.name.text = m.name.text)
      (hsection : (key, keys) ∈ sections)
      (hchange : Change keys [] m.value.text m'.value.text) : Change known sections text text'

section Changes

variable {σ : Type} {places : List (Place σ)} {draft r : σ} {known : List String}
  {sections : List (String × List String)}

theorem Change.exists_isObject (h : Change known sections text text') :
    (∃ ms, IsObject ms text) ∧ ∃ ms, IsObject ms text' := by
  cases h with
  | space h h' | reorder h h' | insert _ _ _ h h' | within _ _ _ _ h h' => exact ⟨⟨_, h⟩, _, h'⟩

/-- The readers of the sections do not notice a change in them. -/
def Unnoticed (places : List (Place σ)) (sections : List (String × List String)) : Prop :=
  ∀ s ∈ sections, ∃ p ∈ places, p.slot.key = s.1 ∧
    ∀ v v' a, Change s.2 [] v v' → (p.read (treeOf v) = .ok a ↔ p.read (treeOf v') = .ok a)

theorem overlays_middle (before after : List Member) (m : Member) :
    Overlays places ((before ++ m :: after).map Member.entry) draft r ↔
      Overlays places (m.entry :: (before ++ after).map Member.entry) draft r :=
  overlays_perm (List.perm_middle.map _)

/-- A change that a record does not notice leaves it as it is. -/
theorem Lawful.readRecord_change (hplaces : Lawful places)
    (hsections : Unnoticed places sections)
    (h : Change (places.map fun p => p.slot.key) sections text text') :
    (treeOf text).readRecord (places.map Place.field) draft = .ok r ↔
      (treeOf text').readRecord (places.map Place.field) draft = .ok r := by
  cases h with
  | space h h' hsame =>
      rw [hplaces.readRecord_object h, hplaces.readRecord_object h']
      have hentries := congrArg (List.map fun t => (treeOf t.1, treeOf t.2)) hsame
      rw [List.map_map, List.map_map] at hentries
      exact iff_of_eq (congrArg (Overlays places · draft r) hentries)
  | reorder h h' hperm =>
      rw [hplaces.readRecord_object h, hplaces.readRecord_object h']
      exact overlays_perm (hperm.map _)
  | insert before after m h h' hkey hknown =>
      have hm := h'.sound (List.mem_append_right _ List.mem_cons_self)
      rw [hplaces.readRecord_object h, hplaces.readRecord_object h', overlays_middle,
        overlays_cons_foreign (hm.hasKey_iff.mpr hkey) (fun p hp heq => hknown ?_)]
      · exact (and_iff_right hm.value.skip_treeOf).symm
      · exact heq ▸ List.mem_map_of_mem hp
  | within before after m m' h h' hkey hname hsection hchange =>
      obtain ⟨p, hp, rfl, hread⟩ := hsections _ hsection
      have hm := h.sound (List.mem_append_right _ List.mem_cons_self)
      have hm' := h'.sound (List.mem_append_right _ List.mem_cons_self)
      rw [hplaces.readRecord_object h, hplaces.readRecord_object h', overlays_middle,
        overlays_middle, hplaces.overlays_cons hp (hm.hasKey_iff.mpr hkey),
        hplaces.overlays_cons hp (hm'.hasKey_iff.mpr (hname ▸ hkey))]
      exact exists_congr fun a => and_congr_left fun _ => hread _ _ a hchange

end Changes

end SpriteStage.Json
