import SpriteStage.Json.Tree

/-!
# Reading typed values

A reader takes the tree of a text to a value or to the first fault that it meets from the left. A
record may be written as an object or as the array of its fields in order; `Field` says how one of
its fields is read and whether it may be missing.
-/

namespace SpriteStage.Json

namespace Tree

/-- What is wrong with a tree that is not of the wanted kind. -/
def unwanted : Tree → Fault
  | .absent => .ended
  | .broken f => f
  | .num n => match n.read with
    | .error f => f
    | .ok _ => .mismatch
  | .str s => match s.read with
    | .error f => f
    | .ok _ => .mismatch
  | _ => .mismatch

def tooDeep : Tree → Fault
  | .arr _ _ => .malformed
  | .obj _ _ => .malformed
  | t => t.unwanted

def readString : Tree → Except Fault String
  | .str s => s.read
  | t => .error t.unwanted

def readBool : Tree → Except Fault Bool
  | .bool b => .ok b
  | t => .error t.unwanted

def readNull : Tree → Except Fault Unit
  | .null => .ok ()
  | t => .error t.unwanted

def readFloat : Tree → Except Fault Float
  | .num n => n.read.map Number.toFloat
  | t => .error t.unwanted

def readNat : Tree → Except Fault Nat
  | .num n => do
    match ← n.read with
    | .int (.ofNat k) => .ok k
    | _ => .error .mismatch
  | t => .error t.unwanted

def readOption {α : Type} (read : Tree → Except Fault α) : Tree → Except Fault (Option α)
  | .null => .ok none
  | t => (read t).map some

def readKey : Tree → Except Fault String
  | .str s => s.read
  | .absent => .error .ended
  | _ => .error .malformed

def readList {α : Type} (read : Tree → Except Fault α) : Tree → Except Fault (List α)
  | .arr items tail => do
    let xs ← items.mapM read
    tail.check
    return xs
  | t => .error t.unwanted

/-- The members of an object by key; of a key that is repeated the last value stays. -/
def readMembers {α : Type} (read : Tree → Except Fault α) :
    Tree → Except Fault (List (String × α))
  | .obj entries tail => do
    let members ← entries.foldlM (fun members (k, v) => do
      let key ← k.readKey
      let value ← read v
      return putMember key value members) []
    tail.check
    return members
  | t => .error t.unwanted

/-- One of a few names, written as a string or as the only key of an object with the value `null`. -/
def readChoice {α : Type} (choices : List (String × α)) : Tree → Except Fault α
  | .absent => .error .ended
  | .str s => do chosen (← s.read)
  | .obj [] .cut => .error .ended
  | .obj [] _ => .error .malformed
  | .obj ((k, v) :: rest) tail => do
    let a ← chosen (← k.readKey)
    v.readNull
    if !rest.isEmpty then .error .malformed
    tail.check
    return a
  | _ => .error .malformed
where
  chosen (name : String) : Except Fault α :=
    match member? name choices with
    | some a => .ok a
    | none => .error .mismatch

end Tree

/-! ## Any value -/

/-- Any value, `depth` containers deep at most. -/
def Value.ofTree : (depth : Nat) → Tree → Except Fault Value
  | _, .null => .ok .null
  | _, .bool b => .ok (.bool b)
  | _, .num n => n.read.map .num
  | _, .str s => s.read.map .str
  | _, .absent => .error .ended
  | _, .broken f => .error f
  | 0, .arr _ _ => .error .malformed
  | 0, .obj _ _ => .error .malformed
  | depth + 1, .arr items tail => (Tree.readList (Value.ofTree depth) (.arr items tail)).map .arr
  | depth + 1, .obj entries tail =>
    (Tree.readMembers (Value.ofTree depth) (.obj entries tail)).map .obj

/-! ## Records -/

inductive Presence where
  | required
  /-- It may be missing in an object, but not in an array. -/
  | optionalByName
  | optional
deriving DecidableEq, Repr

/-- A field of the record `σ`: its key, and how its value is stored in a draft of the record. -/
structure Field (σ : Type) where
  key : String
  presence : Presence
  store : Tree → σ → Except Fault σ

def Field.of {σ α : Type} (key : String) (presence : Presence) (read : Tree → Except Fault α)
    (set : α → σ → σ) : Field σ :=
  ⟨key, presence, fun t draft => (read t).map (set · draft)⟩

namespace Tree

variable {σ : Type}

/-- Reads the members of a record. A key that is not a field's is passed over, and a field that is
repeated is refused at its second key. -/
def readEntries (fields : List (Field σ)) : (seen : List String) → (draft : σ) →
    List (Tree × Tree) → Except Fault (List String × σ)
  | seen, draft, [] => .ok (seen, draft)
  | seen, draft, (k, v) :: rest =>
    match k.readKey with
    | .error f => .error f
    | .ok key =>
      match fields.find? fun f => f.key = key with
      | none =>
        match v.skip with
        | .error f => .error f
        | .ok () => readEntries fields seen draft rest
      | some field =>
        if seen.contains key then .error .mismatch
        else
          match field.store v draft with
          | .error f => .error f
          | .ok draft => readEntries fields (key :: seen) draft rest

def readSequence : List (Field σ) → (draft : σ) → List Tree → Tail → Except Fault σ
  | [], draft, [], tail => do
    tail.check
    return draft
  | [], _, _ :: _, _ => .error .malformed
  | field :: fields, draft, t :: ts, tail => do
    let draft ← field.store t draft
    readSequence fields draft ts tail
  | field :: fields, draft, [], tail => do
    tail.check
    if field.presence = .optional then readSequence fields draft [] tail else .error .mismatch

/-- Reads a record. Fields that are missing keep the value they have in the draft `start`. -/
def readRecord (fields : List (Field σ)) (start : σ) : Tree → Except Fault σ
  | .obj entries tail => do
    let (seen, record) ← readEntries fields [] start entries
    tail.check
    if fields.any fun f => f.presence = .required && !seen.contains f.key then .error .mismatch
    else return record
  | .arr items tail => readSequence fields start items tail
  | t => .error t.unwanted

end Tree

/-- Reads a whole text: nothing but space may follow the value. -/
def Document.read {α : Type} (d : Document) (read : Tree → Except Fault α) : Except Fault α := do
  let a ← read d.tree
  if d.more then .error .malformed else return a

end SpriteStage.Json
