import SpriteStage.Program.Script
import SpriteStage.Proofs.Json.Grammar
import SpriteStage.Proofs.Json.Nesting
import SpriteStage.Proofs.Program.Delimiting

/-!
# The two forms of a program

A workspace holds its blocks in two envelopes, objects with a member `blocks`. The text of a program
of the blocks form may be put into them as it is, with any other members around it and with space
between all parts, and stays the same program: `Listing.forms_agree`.
-/

namespace SpriteStage

open Json

namespace Json

/-! ## Envelopes -/

/-- A member whose key is a string other than `key`, with any well-formed value. The key may be
written with any escapes, but unlike a value that nobody wants it has to be a string of
characters. -/
def Member.Unknown (key : String) (m : Member) : Prop :=
  (∃ k, Quotes m.name.text k ∧ k ≠ key) ∧ WellFormed m.value.text

/-- The text of an object that holds the text `inner` in its member `key`, among any members that
are unknown. -/
inductive Envelope (key : String) (inner : List Char) : List Char → Prop
  | mk (before after : List Member) (m : Member) (hbefore : ∀ u ∈ before, u.Unknown key)
      (hafter : ∀ u ∈ after, u.Unknown key) (hname : Quotes m.name.text key)
      (hvalue : m.value.text = inner) :
      Envelope key inner ('{' :: commaSeparated ((before ++ m :: after).map Member.chars) ++ ['}'])

theorem Envelope.exists_brace {key : String} {inner text : List Char}
    (h : Envelope key inner text) : ∃ cs, text = '{' :: cs := by
  cases h
  exact ⟨_, rfl⟩

namespace Tree

variable {σ : Type} {field : Field σ} {seen : List String} {draft : σ}

/-- The entry of a member that a record with the one field `key` passes over. -/
def Foreign (key : String) (e : Tree × Tree) : Prop :=
  ∃ k, e.1 = .str (.sound k) ∧ k ≠ key ∧ e.2.skip = .ok ()

theorem readEntries_foreign {entries : List (Tree × Tree)}
    (h : ∀ e ∈ entries, Foreign field.key e) (rest : List (Tree × Tree)) :
    readEntries [field] seen draft (entries ++ rest) = readEntries [field] seen draft rest := by
  induction entries with
  | nil => rfl
  | cons e entries ih =>
      obtain ⟨key, v⟩ := e
      obtain ⟨k, rfl, hk, hskip⟩ := h _ List.mem_cons_self
      have hfield : ([field].find? fun f => f.key = k) = none := by simp [Ne.symm hk]
      rw [List.cons_append, ← ih fun e he => h e (.tail _ he)]
      simp [readEntries, readKey, Scan.sound, hfield, hskip]

/-- A record with one field is read from the member of that field. -/
theorem readRecord_single {before after : List (Tree × Tree)} {t : Tree} {start record : σ}
    (hbefore : ∀ e ∈ before, Foreign field.key e) (hafter : ∀ e ∈ after, Foreign field.key e)
    (hstore : field.store t start = .ok record) :
    readRecord [field] start (.obj (before ++ (.str (.sound field.key), t) :: after) .closed) =
      .ok record := by
  have hentries : readEntries [field] [] start
      (before ++ (.str (.sound field.key), t) :: after) = .ok ([field.key], record) := by
    rw [readEntries_foreign hbefore, readEntries_field (by simp) List.not_mem_nil hstore,
      ← List.append_nil after, readEntries_foreign hafter]
    rfl
  rw [readRecord, hentries]
  simp [Tail.check, bind, Except.bind, pure, Except.pure]

end Tree

structure Entry where
  member : Member
  key : String
  value : Tree
  isString : IsString member.name.text (.sound key)
  spells : Spells member.value.text value

def Entry.tree (e : Entry) : Tree × Tree := (.str (.sound e.key), e.value)

theorem spells_entries (es : List Entry) :
    Spells ('{' :: commaSeparated ((es.map Entry.member).map Member.chars) ++ ['}'])
      (.obj (es.map Entry.tree) .closed) := by
  rw [List.map_map]
  exact spells_object (fun e _ => e.isString.padded) fun e _ => e.spells.padded

/-- Unknown members are read as entries that are passed over. -/
theorem exists_entries {key : String} {ms : List Member} (h : ∀ m ∈ ms, m.Unknown key) :
    ∃ es : List Entry, es.map Entry.member = ms ∧ ∀ e ∈ es, Tree.Foreign key e.tree := by
  induction ms with
  | nil => exact ⟨[], rfl, nofun⟩
  | cons m ms ih =>
      obtain ⟨⟨k, hname, hk⟩, hvalue⟩ := h m List.mem_cons_self
      obtain ⟨t, hspells, hskip⟩ := hvalue.passes
      obtain ⟨es, rfl, hes⟩ := ih fun m' hm' => h m' (.tail m hm')
      refine ⟨⟨m, k, t, hname.isString, hspells⟩ :: es, rfl, ?_⟩
      exact List.forall_mem_cons.mpr ⟨⟨k, rfl, hk, hskip⟩, hes⟩

/-- The envelope of a value that a field stores is read as the record with that value. -/
theorem Envelope.reads {σ : Type} {field : Field σ} {start record : σ} {inner text : List Char}
    {t : Tree} (h : Envelope field.key inner text) (ht : Spells inner t)
    (hstore : field.store t start = .ok record) :
    ∃ u, Spells text u ∧ u.readRecord [field] start = .ok record := by
  obtain ⟨before, after, m, hbefore, hafter, hname, rfl⟩ := h
  obtain ⟨es, rfl, hes⟩ := exists_entries hbefore
  obtain ⟨es', rfl, hes'⟩ := exists_entries hafter
  let held : Entry := ⟨m, field.key, t, hname.isString, ht⟩
  have hmembers : (es ++ held :: es').map Entry.member =
      es.map Entry.member ++ m :: es'.map Entry.member := List.map_append
  refine ⟨_, hmembers ▸ spells_entries (es ++ held :: es'), ?_⟩
  rw [List.map_append, List.map_cons]
  exact Tree.readRecord_single (List.forall_mem_map.mpr hes) (List.forall_mem_map.mpr hes') hstore

end Json

namespace Listing

/-! ## Workspaces -/

def Wraps (array text : List Char) : Prop :=
  ∃ (inner : List Char) (outer : Padded), Envelope "blocks" array inner ∧
    Envelope "blocks" inner outer.text ∧ text = outer.chars

theorem trimLeft_space {w : List Char} (h : w.all isSpace = true) (cs : List Char) :
    Text.trimLeft (w ++ cs) = Text.trimLeft cs := by
  induction w with
  | nil => rfl
  | cons c w ih =>
      rw [List.all_cons, Bool.and_eq_true] at h
      have hc : Text.isBlank c = true := by
        obtain rfl | rfl | rfl | rfl := isSpace_cases h.1 <;> rfl
      rw [← ih h.2, Text.trimLeft, Text.trimLeft, List.cons_append, List.dropWhile_cons_of_pos hc]

def plainEnvelope (inner : List Char) : List Char :=
  '{' :: (quoted "blocks" ++ ':' :: inner) ++ ['}']

theorem envelope_plain (inner : List Char) : Envelope "blocks" inner (plainEnvelope inner) := by
  have h : Envelope "blocks" inner
      ('{' :: (Member.mk (bare (quoted "blocks")) (bare inner)).chars ++ ['}']) :=
    .mk [] [] _ nofun nofun (quotes_quoted "blocks") rfl
  rwa [Member.chars, chars_bare, chars_bare] at h

/-- Around any array stands the workspace that holds nothing else. -/
theorem wraps_plain (array : List Char) : Wraps array (plainEnvelope (plainEnvelope array)) :=
  ⟨_, bare _, envelope_plain array, envelope_plain _, (chars_bare _).symm⟩

/-- A workspace announces itself by its opening brace. -/
theorem Wraps.formOf {array text : List Char} (h : Wraps array text) :
    formOf text = .workspace := by
  obtain ⟨inner, outer, -, houter, rfl⟩ := h
  obtain ⟨cs, hcs⟩ := houter.exists_brace
  rw [Listing.formOf, Padded.chars, trimLeft_space outer.space.1, hcs]
  rfl

/-- What an array of blocks is read as, a workspace around it is read as. -/
theorem Wraps.reads {array text : List Char} {t : Json.Tree} {chains : List Chain}
    (h : Wraps array text) (ht : Spells array t) (hread : chainsOfTree t = .ok chains) :
    ∃ u, Spells text u ∧ workspaceOfTree u = .ok chains := by
  obtain ⟨inner, outer, hinner, houter, rfl⟩ := h
  have hchains : (Json.Field.of "blocks" .optional chainsOfTree fun chains _ => chains).store t [] =
      .ok chains := by
    simp [Json.Field.of, hread, Except.map]
  obtain ⟨u, hu, hinnerRead⟩ := hinner.reads ht hchains
  have hblocks : (Json.Field.of "blocks" .optional innerOfTree fun chains _ => chains).store u [] =
      .ok chains := by
    have hinnerTree : innerOfTree u = .ok chains := hinnerRead
    simp [Json.Field.of, hinnerTree, Except.map]
  obtain ⟨v, hv, houterRead⟩ := houter.reads hu hblocks
  exact ⟨v, hv.padded, houterRead⟩

/-- **The two forms agree.** A text that is a program of the blocks form is, put into the two
envelopes of a workspace, a program of the workspace form with the same chains, whatever other
members and whatever space the envelopes hold; so both texts give the same program, or the same
error when a block does not fit. -/
theorem forms_agree {array text : String} {chains : List Chain}
    (h : ofText array = .ok ⟨.blocks, chains⟩) (hwraps : Wraps array.toList text.toList) :
    ofText text = .ok ⟨.workspace, chains⟩ ∧ Program.ofText text = Program.ofText array := by
  obtain ⟨-, hread, hmore⟩ := read_of_ofChars h
  have hspells := Spells.of_isClosed (isClosed_of_readForm hread) hmore
  obtain ⟨u, hu, hworkspace⟩ := hwraps.reads hspells hread
  have htext : ofText text = .ok ⟨.workspace, chains⟩ := by
    rw [ofText, ofChars, hwraps.formOf, hu.ofText, Document.read]
    simp [readForm, hworkspace, bind, Except.bind, pure, Except.pure, Except.map]
  exact ⟨htext, by rw [Program.ofText, Program.ofText, htext, h]⟩

def plainWorkspace : String :=
  String.ofList (plainEnvelope (plainEnvelope (writtenChars sampleChains)))

/-- An inner envelope with a version, and with an escape in the key of the blocks. -/
def sampleInner (array : List Char) : List Char :=
  '{' :: commaSeparated ([⟨bare (quoted "languageVersion"), bare ['0']⟩,
    ⟨⟨[], "\"\\u0062locks\"".toList, [' '], rfl, rfl⟩, ⟨[' '], array, ['\r'], rfl, rfl⟩⟩].map
      Member.chars) ++ ['}']

/-- An outer envelope with space around it, and with a list that no reader could hold: half a
surrogate pair and a number beyond every range. -/
def sampleOuter (inner : List Char) : Padded where
  before := ['\n']
  text := '{' :: commaSeparated ([⟨bare (quoted "blocks"), bare inner⟩,
    ⟨bare (quoted "future"), bare "[\"\\ud800\", 1e999]".toList⟩].map Member.chars) ++ ['}']
  after := ['\t']
  space := ⟨rfl, rfl⟩

def sampleWorkspace : String :=
  String.ofList (sampleOuter (sampleInner (writtenChars sampleChains))).chars

theorem wraps_sample (array : List Char) :
    Wraps array (sampleOuter (sampleInner array)).chars := by
  have hzero : IsWhole ['0'] := ⟨⟨rfl, nofun⟩, nofun⟩
  have hone : IsWhole ['1'] := ⟨⟨rfl, nofun⟩, nofun⟩
  have hnines : IsDigits ['9', '9', '9'] := ⟨rfl, nofun⟩
  have hhalf : WellFormed "\"\\ud800\"".toList := .string (.unit (n := 0xd800) rfl .nil)
  have hhuge : WellFormed ['1', 'e', '9', '9', '9'] :=
    .number (.unsigned hone .none (.unsigned (.inl rfl) hnines))
  have hfuture : WellFormed "[\"\\ud800\", 1e999]".toList :=
    .array [] [bare "\"\\ud800\"".toList, ⟨[' '], ['1', 'e', '9', '9', '9'], [], rfl, rfl⟩] rfl
      (List.forall_mem_cons.mpr ⟨hhalf, List.forall_mem_singleton.mpr hhuge⟩)
  have hkey : Quotes "\"\\u0062locks\"".toList "blocks" :=
    ⟨_, .unit (n := 0x62) rfl rfl rfl (denotes_flatMap_escapeChar "locks".toList), rfl⟩
  refine ⟨sampleInner array, sampleOuter (sampleInner array), ?_, ?_, rfl⟩
  · refine .mk [⟨bare (quoted "languageVersion"), bare ['0']⟩] [] _ ?_ nofun hkey rfl
    exact List.forall_mem_singleton.mpr
      ⟨⟨_, quotes_quoted "languageVersion", by decide⟩, .number (.unsigned hzero .none .none)⟩
  · refine .mk [] [⟨bare (quoted "future"), bare "[\"\\ud800\", 1e999]".toList⟩] _ nofun ?_
      (quotes_quoted "blocks") rfl
    exact List.forall_mem_singleton.mpr ⟨⟨_, quotes_quoted "future", by decide⟩, hfuture⟩

theorem forms_agree_sampleWorkspace :
    ofText (written sampleChains) = .ok ⟨.blocks, sampleChains⟩ ∧
      (ofText plainWorkspace = .ok ⟨.workspace, sampleChains⟩ ∧
        Program.ofText plainWorkspace = Program.ofText (written sampleChains)) ∧
      ofText sampleWorkspace = .ok ⟨.workspace, sampleChains⟩ ∧
        Program.ofText sampleWorkspace = Program.ofText (written sampleChains) := by
  have h : ofText (written sampleChains) = .ok ⟨.blocks, sampleChains⟩ := by
    rw [ofText, written, String.toList_ofList]
    exact ofChars_writtenChars exact_sampleChains
  have hplain : Wraps (written sampleChains).toList plainWorkspace.toList := by
    rw [written, plainWorkspace, String.toList_ofList, String.toList_ofList]
    exact wraps_plain _
  have hsample : Wraps (written sampleChains).toList sampleWorkspace.toList := by
    rw [written, sampleWorkspace, String.toList_ofList, String.toList_ofList]
    exact wraps_sample _
  exact ⟨h, forms_agree h hplain, forms_agree h hsample⟩

end Listing

end SpriteStage
