import SpriteStage.Program.Listing
import SpriteStage.Proofs.Json.RoundTrip

/-!
# Saved programs are read back

Chains that are written without blanks, with commas between them and brackets around them, are the
text of a program of the blocks form, and it holds these chains: `Listing.reads_back`. A block
leaves out its id, its fields and the link to the next block when there are none, and what is left
out keeps the value of the blank chain that reading starts from.
-/

namespace SpriteStage

open Json

/-! ## Records with members left out -/

namespace Json.Tree

variable {σ : Type} {fields : List (Field σ)} {seen : List String} {draft draft' : σ}

/-- A member is stored in the field of its key. -/
theorem readEntries_field {key : String} {field : Field σ} {v : Tree}
    (hfield : fields.find? (fun f => f.key = key) = some field) (hseen : key ∉ seen)
    (hstore : field.store v draft = .ok draft') (rest : List (Tree × Tree)) :
    readEntries fields seen draft ((.str (.sound key), v) :: rest) =
      readEntries fields (key :: seen) draft' rest := by
  simp [readEntries, readKey, Scan.sound, hfield, hseen, hstore]

/-- The member of a key takes the draft to another one: it is stored, or it is left out and nothing
changes. -/
def Fills (fields : List (Field σ)) (key : String) (entries : List (Tree × Tree))
    (draft draft' : σ) : Prop :=
  entries = [] ∧ draft = draft' ∨
    ∃ field v, fields.find? (fun f => f.key = key) = some field ∧
      entries = [(.str (.sound key), v)] ∧ field.store v draft = .ok draft'

/-- Which keys have been seen afterwards depends on whether the member is there, so they are only
bounded from both sides. -/
theorem Fills.readEntries {key : String} {entries : List (Tree × Tree)}
    (h : Fills fields key entries draft draft') (hseen : key ∉ seen) :
    ∃ seen', (∀ k, k ∈ seen' → k = key ∨ k ∈ seen) ∧ (∀ k, k ∈ seen → k ∈ seen') ∧
      ∀ rest, readEntries fields seen draft (entries ++ rest) =
        readEntries fields seen' draft' rest := by
  rcases h with ⟨rfl, rfl⟩ | ⟨field, v, hfield, rfl, hstore⟩
  · exact ⟨seen, fun _ => .inr, fun _ => id, fun _ => rfl⟩
  · exact ⟨key :: seen, fun _ => List.mem_cons.mp, fun _ => List.mem_cons_of_mem key,
      readEntries_field hfield hseen hstore⟩

end Json.Tree

namespace Chain

open Json.Tree

/-! ## Writing -/

def nextMembers : List Block → List (String × Value)
  | [] => []
  | c :: rest => [("next", .obj [("block", valueFrom c rest)])]

theorem valueFrom_eq (b : Block) (rest : List Block) :
    valueFrom b rest = .obj (blockMembers b ++ nextMembers rest) := by
  cases rest <;> simp [valueFrom, nextMembers]

/-- The fields of every block of a chain are given back by their text. -/
def Exact (c : Chain) : Prop := ∀ b ∈ c.blocks, (Value.obj b.fields).Exact

theorem exact_of_mem_blockMembers {b : Block} (h : (Value.obj b.fields).Exact)
    {m : String × Value} (hm : m ∈ blockMembers b) : m.2.Exact := by
  simp only [blockMembers, List.mem_cons, List.mem_append, List.mem_map] at hm
  rcases hm with (rfl | ⟨id, -, rfl⟩) | hm
  · exact .str _
  · exact .str _
  · split at hm
    · cases hm
    · rw [List.mem_singleton.mp hm]
      exact h

theorem Exact.tail {b c : Block} {rest : List Block} (h : Exact ⟨b, c :: rest⟩) :
    Exact ⟨c, rest⟩ := fun b' hb' => h b' (.tail b hb')

theorem Exact.spells {b : Block} {rest : List Block} (h : Exact ⟨b, rest⟩) :
    Spells (valueFrom b rest).compact (valueFrom b rest).tree := by
  induction rest generalizing b with
  | nil =>
      rw [valueFrom_eq, nextMembers, List.append_nil]
      exact Value.spells_obj fun m hm =>
        (exact_of_mem_blockMembers (h b List.mem_cons_self) hm).spells
  | cons c rest ih =>
      rw [valueFrom_eq]
      refine Value.spells_obj fun m hm => ?_
      rcases List.mem_append.mp hm with hm | hm
      · exact (exact_of_mem_blockMembers (h b List.mem_cons_self) hm).spells
      · rw [List.mem_singleton.mp hm]
        refine Value.spells_obj fun m hm => ?_
        rw [List.mem_singleton.mp hm]
        exact ih h.tail

/-! ## Reading -/

def blockFields (depth : Nat) : List (Json.Field Chain) :=
  [Json.Field.of "type" .required Json.Tree.readString
      fun kind c => { c with head := { c.head with kind } },
    Json.Field.of "id" .optional (Json.Tree.readOption Json.Tree.readString)
      fun id c => { c with head := { c.head with id } },
    Json.Field.of "fields" .optional (readFields depth)
      fun fields c => { c with head := { c.head with fields } },
    Json.Field.of "next" .optional (Json.Tree.readOption (nextOfTree depth))
      fun next c => { c with rest := (next.map blocks).getD [] }]

theorem ofTree_succ (depth : Nat) (t : Json.Tree) :
    ofTree (depth + 1) t = t.readRecord (blockFields depth) blank := by
  rw [ofTree]
  rfl

def idEntries (b : Block) : List (Json.Tree × Json.Tree) :=
  b.id.toList.map fun id => (.str (.sound "id"), .str (.sound id))

def fieldsEntries (b : Block) : List (Json.Tree × Json.Tree) :=
  if b.fields.isEmpty then [] else [(.str (.sound "fields"), (Value.obj b.fields).tree)]

def nextEntries (rest : List Block) : List (Json.Tree × Json.Tree) :=
  (nextMembers rest).map fun m => (.str (.sound m.1), m.2.tree)

theorem tree_valueFrom (b : Block) (rest : List Block) :
    (valueFrom b rest).tree = .obj ((.str (.sound "type"), .str (.sound b.kind)) ::
      (idEntries b ++ (fieldsEntries b ++ (nextEntries rest ++ [])))) .closed := by
  rw [valueFrom_eq, Value.tree, Value.treesOfMembers_eq_map, blockMembers, fieldsEntries]
  cases b.fields.isEmpty <;>
    simp [idEntries, nextEntries, Value.tree, Function.comp_def]

section

variable {depth : Nat} {b : Block} {rest : List Block}

theorem fills_id (depth : Nat) (b : Block) : Fills (blockFields depth) "id" (idEntries b)
    ⟨⟨b.kind, none, []⟩, []⟩ ⟨⟨b.kind, b.id, []⟩, []⟩ := by
  unfold idEntries
  cases b.id with
  | none => exact .inl ⟨rfl, rfl⟩
  | some id => exact .inr ⟨_, _, rfl, rfl, rfl⟩

theorem fills_fields
    (h : b.fields ≠ [] → readFields depth (Value.obj b.fields).tree = .ok b.fields) :
    Fills (blockFields depth) "fields" (fieldsEntries b)
      ⟨⟨b.kind, b.id, []⟩, []⟩ ⟨⟨b.kind, b.id, b.fields⟩, []⟩ := by
  unfold fieldsEntries
  split
  · rename_i hempty
    exact .inl ⟨rfl, by rw [List.isEmpty_iff.mp hempty]⟩
  · rename_i hsome
    refine .inr ⟨_, _, rfl, rfl, ?_⟩
    simp [Json.Field.of, h (by simpa using hsome), Except.map]

theorem fills_next (h : ∀ c later, rest = c :: later →
      nextOfTree depth (Value.obj [("block", valueFrom c later)]).tree = .ok ⟨c, later⟩) :
    Fills (blockFields depth) "next" (nextEntries rest) ⟨b, []⟩ ⟨b, rest⟩ := by
  cases rest with
  | nil => exact .inl ⟨rfl, rfl⟩
  | cons c later =>
      refine .inr ⟨_, _, rfl, rfl, ?_⟩
      have hread := h c later rfl
      rw [Value.tree] at hread ⊢
      simp [Json.Field.of, Json.Tree.readOption, hread, Except.map, blocks]

/-- A block is read back when its fields and what follows it are. -/
theorem ofTree_valueFrom
    (hfields : b.fields ≠ [] → readFields depth (Value.obj b.fields).tree = .ok b.fields)
    (hnext : ∀ c later, rest = c :: later →
      nextOfTree depth (Value.obj [("block", valueFrom c later)]).tree = .ok ⟨c, later⟩) :
    ofTree (depth + 1) (valueFrom b rest).tree = .ok ⟨b, rest⟩ := by
  have hseen : "id" ∉ ["type"] := by decide
  obtain ⟨seen₁, honly₁, hkept₁, hid⟩ := (fills_id depth b).readEntries hseen
  have hseen₁ : "fields" ∉ seen₁ := fun h => by simpa using honly₁ _ h
  obtain ⟨seen₂, honly₂, hkept₂, hfields⟩ := (fills_fields hfields).readEntries hseen₁
  have hseen₂ : "next" ∉ seen₂ := fun h => by simpa using (honly₂ _ h).imp_right (honly₁ _)
  obtain ⟨seen₃, -, hkept₃, hnext⟩ := (fills_next hnext).readEntries hseen₂
  have htype : "type" ∈ seen₃ := hkept₃ _ (hkept₂ _ (hkept₁ _ List.mem_cons_self))
  have hentries : readEntries (blockFields depth) [] blank
      ((.str (.sound "type"), .str (.sound b.kind)) ::
        (idEntries b ++ (fieldsEntries b ++ (nextEntries rest ++ [])))) =
      .ok (seen₃, ⟨b, rest⟩) :=
    calc _ = readEntries (blockFields depth) ["type"] ⟨⟨b.kind, none, []⟩, []⟩ _ :=
          readEntries_field rfl List.not_mem_nil rfl _
      _ = readEntries (blockFields depth) seen₁ ⟨⟨b.kind, b.id, []⟩, []⟩ _ := hid _
      _ = readEntries (blockFields depth) seen₂ ⟨b, []⟩ _ := hfields _
      _ = readEntries (blockFields depth) seen₃ ⟨b, rest⟩ _ := hnext _
      _ = .ok (seen₃, ⟨b, rest⟩) := rfl
  rw [ofTree_succ, tree_valueFrom, readRecord, hentries]
  simp [blockFields, Json.Field.of, htype, Tail.check, bind, Except.bind, pure, Except.pure]

/-- The bag of fields is one container less deep than the block. -/
theorem height_fields_lt (h : b.fields ≠ []) :
    (Value.obj b.fields).tree.height < (valueFrom b rest).tree.height := by
  rw [tree_valueFrom, Json.Tree.height]
  refine Nat.lt_succ_of_le (height_le_of_mem_entries (e := (.str (.sound "fields"), _)) ?_)
  simp [fieldsEntries, h, Value.tree]

/-- The following block is two containers less deep. -/
theorem height_next_lt {c : Block} {later : List Block} :
    (valueFrom c later).tree.height + 1 < (valueFrom b (c :: later)).tree.height := by
  have hlink : (Value.obj [("block", valueFrom c later)]).tree.height =
      (valueFrom c later).tree.height + 1 := by
    simp [Value.tree, Value.treesOfMembers, Json.Tree.height, Json.Tree.heightOfEntries]
  rw [← hlink, tree_valueFrom b, Json.Tree.height]
  refine Nat.lt_succ_of_le (height_le_of_mem_entries (e := (.str (.sound "next"), _)) ?_)
  simp [nextEntries, nextMembers, Value.tree]

/-- An object that is read back as a value is read back as a bag of fields. -/
theorem readFields_of_ofTree {ms : List (String × Value)}
    (h : Value.ofTree depth (Value.obj ms).tree = .ok (.obj ms)) :
    readFields depth (Value.obj ms).tree = .ok ms := by
  rw [Value.tree] at h ⊢
  cases depth with
  | zero => cases h
  | succ depth =>
      rw [Value.ofTree] at h
      rw [readFields]
      cases hread : readMembers (Value.ofTree depth) (.obj (Value.treesOfMembers ms) .closed) with
      | error f => rw [hread] at h; cases h
      | ok ms' => rw [hread] at h; cases h; rfl

theorem nextOfTree_link {c : Block} {later : List Block}
    (h : ofTree depth (valueFrom c later).tree = .ok ⟨c, later⟩) :
    nextOfTree (depth + 1) (Value.obj [("block", valueFrom c later)]).tree = .ok ⟨c, later⟩ := by
  have hstore : (Json.Field.of "block" .required (ofTree depth) fun next _ => next).store
      (valueFrom c later).tree blank = .ok ⟨c, later⟩ := by
    simp [Json.Field.of, h, Except.map]
  rw [nextOfTree, Value.tree, readRecord, Value.treesOfMembers,
    readEntries_field rfl List.not_mem_nil hstore]
  rfl

theorem readFields_of_exact (h : (Value.obj b.fields).Exact)
    (hd : (valueFrom b rest).tree.height ≤ depth + 1) (hne : b.fields ≠ []) :
    readFields depth (Value.obj b.fields).tree = .ok b.fields :=
  readFields_of_ofTree
    (h.ofTree (Nat.le_of_lt_succ (Nat.lt_of_lt_of_le (height_fields_lt hne) hd)))

/-- A chain is read back from its tree at any depth that reaches its ground. -/
theorem Exact.ofTree (h : Exact ⟨b, rest⟩) (hd : (valueFrom b rest).tree.height ≤ depth) :
    ofTree depth (valueFrom b rest).tree = .ok ⟨b, rest⟩ := by
  induction rest generalizing b depth with
  | nil =>
      cases depth with
      | zero => rw [tree_valueFrom] at hd; cases hd
      | succ depth =>
          exact ofTree_valueFrom (readFields_of_exact (h b List.mem_cons_self) hd) nofun
  | cons c later ih =>
      cases depth with
      | zero => rw [tree_valueFrom] at hd; cases hd
      | succ depth =>
          refine ofTree_valueFrom (readFields_of_exact (h b List.mem_cons_self) hd) ?_
          intro _ _ heq
          cases heq
          have hlink := Nat.le_of_lt_succ (Nat.lt_of_lt_of_le height_next_lt hd)
          cases depth with
          | zero => cases hlink
          | succ depth => exact nextOfTree_link (ih h.tail (Nat.le_of_succ_le_succ hlink))

end

theorem Exact.ofTree_toValue {c : Chain} {depth : Nat} (h : c.Exact)
    (hd : c.toValue.tree.height ≤ depth) : Chain.ofTree depth c.toValue.tree = .ok c := h.ofTree hd

end Chain

namespace Listing

open Json.Tree

/-- The text of some chains: each one without blanks, commas between them, brackets around them. -/
def writtenChars (chains : List Chain) : List Char :=
  '[' :: commaSeparated (chains.map fun c => c.toValue.compact) ++ [']']

def written (chains : List Chain) : String := String.ofList (writtenChars chains)

theorem chainsOfTree_map {chains : List Chain} (h : ∀ c ∈ chains, c.Exact) :
    chainsOfTree (.arr (chains.map fun c => c.toValue.tree) .closed) = .ok chains := by
  refine readList_map fun c hc => (h c hc).ofTree_toValue ?_
  exact Nat.le_succ_of_le (height_le_of_mem_map (fun c => c.toValue.tree) hc)

theorem ofChars_writtenChars {chains : List Chain} (h : ∀ c ∈ chains, c.Exact) :
    ofChars (writtenChars chains) = .ok ⟨.blocks, chains⟩ := by
  have hdocument : Document.ofText (writtenChars chains) =
      ⟨.arr (chains.map fun c => c.toValue.tree) .closed, false⟩ :=
    (spells_array fun c hc => (h c hc).spells).ofText
  have hform : formOf (writtenChars chains) = .blocks := rfl
  simp [ofChars, hform, hdocument, Document.read, readForm, chainsOfTree_map h, bind, Except.bind,
    pure, Except.pure, Except.map]

/-- **Saved programs are read back.** The text of any chains is a program of the blocks form that
holds just these chains, whatever characters stand in their kinds and ids, however long they are and
however deep their fields are nested, as long as the fields hold whole numbers only. -/
theorem reads_back {chains : List Chain} (h : ∀ c ∈ chains, c.Exact) :
    ofText (written chains) = .ok ⟨.blocks, chains⟩ := by
  rw [ofText, written, String.toList_ofList]
  exact ofChars_writtenChars h

/-- A chain with quotes, a backslash and control characters, the ends of the range of whole numbers
and nested fields, and a chain that leaves everything out. -/
def sampleChains : List Chain :=
  [⟨⟨"say \"hé\"\\", some "\x00\n\x1f",
      [("list", .arr [.null, .obj [("", .str "\t")], .num (.int 18446744073709551615)]),
        ("low", .num (.int (-9223372036854775808)))]⟩,
    [⟨"stop", none, []⟩]⟩,
   ⟨⟨"", none, []⟩, []⟩]

theorem exact_sampleChains : ∀ c ∈ sampleChains, c.Exact := by
  have hinner : (Value.obj [("", .str "\t")]).Exact :=
    .obj (List.pairwise_singleton _ _) fun m hm => by rw [List.mem_singleton.mp hm]; exact .str _
  have hlist : (Value.arr [.null, .obj [("", .str "\t")],
      .num (.int 18446744073709551615)]).Exact := by
    refine .arr fun v hv => ?_
    simp only [List.mem_cons, List.not_mem_nil, or_false] at hv
    rcases hv with rfl | rfl | rfl
    · exact .null
    · exact hinner
    · exact .int (by decide)
  have hfields : (Value.obj [("list", .arr [.null, .obj [("", .str "\t")],
      .num (.int 18446744073709551615)]), ("low", .num (.int (-9223372036854775808)))]).Exact := by
    refine .obj (by decide +kernel) fun m hm => ?_
    simp only [List.mem_cons, List.not_mem_nil, or_false] at hm
    rcases hm with rfl | rfl
    · exact hlist
    · exact .int (by decide)
  have hempty : (Value.obj []).Exact := .obj .nil nofun
  simp [sampleChains, Chain.Exact, Chain.blocks, hfields, hempty]

theorem reads_back_sampleChains : (∀ c ∈ sampleChains, c.Exact) ∧
    ofText (written sampleChains) = .ok ⟨.blocks, sampleChains⟩ :=
  ⟨exact_sampleChains, reads_back exact_sampleChains⟩

end Listing

end SpriteStage
