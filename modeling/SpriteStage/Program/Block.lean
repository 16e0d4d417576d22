import SpriteStage.Json.Reading
import SpriteStage.Json.Printer

/-!
# Blocks and chains

A block as the block editor writes it: a kind, perhaps an id, and an open bag of fields. Blocks are
linked by `next`, so a written block stands for a whole chain: itself and the blocks that follow.
This module reads and writes chains and looks up the fields of a block; it gives no field a meaning.
-/

namespace SpriteStage

structure Block where
  kind : String
  id : Option String
  /-- The fields in the order of their keys. -/
  fields : List (String × Json.Value)

/-- A block and the blocks that follow it. -/
structure Chain where
  head : Block
  rest : List Block

def Chain.blocks (c : Chain) : List Block := c.head :: c.rest

inductive Expectation where
  | number
  | text
deriving DecidableEq, Repr

inductive ProgramError where
  /-- The text is no program. -/
  | malformed (fault : Json.Fault)
  | missingField (block field : String)
  | invalidField (block field : String) (expected : Expectation)
  | unknownEvent (name : String)
deriving DecidableEq, Repr

def Expectation.words : Expectation → String
  | .number => "a number"
  | .text => "text"

def Json.Fault.words : Json.Fault → String
  | .ended => "the text ends inside a value"
  | .malformed => "the text is not JSON"
  | .mismatch => "the text is not a program"

def ProgramError.message : ProgramError → String
  | .malformed fault => "malformed program JSON: " ++ fault.words
  | .missingField block field => "`" ++ block ++ "` block is missing field `" ++ field ++ "`"
  | .invalidField block field expected =>
    "`" ++ block ++ "` block has invalid `" ++ field ++ "`: expected " ++ expected.words
  | .unknownEvent name =>
    "unknown event `" ++ name ++
      "` (expected when_flag_clicked, when_key_pressed or when_sprite_clicked)"

namespace Block

/-- The value of a field; a field that is `null` counts as missing. -/
def field? (b : Block) (field : String) : Option Json.Value :=
  match Json.member? field b.fields with
  | some .null => none
  | v => v

/-- A field that holds a number, or a text that is one. -/
def number (b : Block) (field : String) : Except ProgramError Float :=
  match b.field? field with
  | none => .error (.missingField b.kind field)
  | some (.num n) => .ok n.toFloat
  | some (.str s) =>
    match Decimal.trimmedNumber? s with
    | some x => .ok x
    | none => .error (.invalidField b.kind field .number)
  | some _ => .error (.invalidField b.kind field .number)

/-- A field that holds a text, or a number or a truth value as a text. -/
def text (b : Block) (field : String) : Except ProgramError String :=
  match b.field? field with
  | none => .error (.missingField b.kind field)
  | some (.str s) => .ok s
  | some (.num n) => .ok n.text
  | some (.bool true) => .ok "true"
  | some (.bool false) => .ok "false"
  | some _ => .error (.invalidField b.kind field .text)

end Block

namespace Chain

open Json

/-- What a chain is before any of its fields is read. -/
def blank : Chain := ⟨⟨"", none, []⟩, []⟩

mutual

/-- Reads a block and what follows it, entering `depth` containers at most. -/
def ofTree : (depth : Nat) → Tree → Except Fault Chain
  | 0, t => .error t.tooDeep
  | depth + 1, t =>
    t.readRecord
      [Field.of "type" .required Tree.readString
          fun kind c => { c with head := { c.head with kind } },
        Field.of "id" .optional (Tree.readOption Tree.readString)
          fun id c => { c with head := { c.head with id } },
        Field.of "fields" .optional (readFields depth)
          fun fields c => { c with head := { c.head with fields } },
        Field.of "next" .optional (Tree.readOption (nextOfTree depth))
          fun next c => { c with rest := (next.map blocks).getD [] }]
      blank

def nextOfTree : (depth : Nat) → Tree → Except Fault Chain
  | 0, t => .error t.tooDeep
  | depth + 1, t =>
    t.readRecord [Field.of "block" .required (ofTree depth) fun next _ => next] blank

/-- Reads the bag of fields, which must be an object. -/
def readFields : (depth : Nat) → Tree → Except Fault (List (String × Value))
  | 0, .obj _ _ => .error .malformed
  | 0, t => .error t.unwanted
  | depth + 1, t => t.readMembers (Value.ofTree depth)

end

/-- The members of a written block, without the link to the next one. -/
def blockMembers (b : Block) : List (String × Value) :=
  ("type", .str b.kind) :: (b.id.toList.map fun id => ("id", .str id)) ++
    if b.fields.isEmpty then [] else [("fields", .obj b.fields)]

def valueFrom : Block → List Block → Value
  | b, [] => .obj (blockMembers b)
  | b, c :: rest =>
    .obj (blockMembers b ++ [("next", .obj [("block", valueFrom c rest)])])

def toValue (c : Chain) : Value := valueFrom c.head c.rest

def depthLimit : Nat := 127

def ofText (text : String) : Except Fault Chain :=
  (Document.ofText text.toList).read (ofTree depthLimit)

end Chain

end SpriteStage
