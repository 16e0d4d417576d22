import SpriteStage.Decimal.Layout
import SpriteStage.Json.Value

/-!
# Writing JSON

A value is written compactly, or spread over lines with two blanks for each level. Members are
written in the order in which they stand. A double that is not finite is written as `null`.
-/

namespace SpriteStage.Json

def hexDigit (n : Nat) : Char :=
  if n < 10 then Char.ofNat ('0'.toNat + n) else Char.ofNat ('a'.toNat + n - 10)

/-- A character inside a string. Only the quote, the backslash and the control characters below the
blank are escaped. -/
def escapeChar (c : Char) : List Char :=
  if c = '"' then ['\\', '"']
  else if c = '\\' then ['\\', '\\']
  else if c = '\x08' then ['\\', 'b']
  else if c = '\x0c' then ['\\', 'f']
  else if c = '\n' then ['\\', 'n']
  else if c = '\r' then ['\\', 'r']
  else if c = '\t' then ['\\', 't']
  else if c.toNat < 0x20 then
    ['\\', 'u', '0', '0', hexDigit (c.toNat / 16), hexDigit (c.toNat % 16)]
  else [c]

def quoted (s : String) : List Char := '"' :: s.toList.flatMap escapeChar ++ ['"']

def Number.text : Number → String
  | .int n => toString n
  | .float x => (Decimal.numberText? x).getD "null"

def commaSeparated : List (List Char) → List Char
  | [] => []
  | [p] => p
  | p :: q :: rest => p ++ ',' :: commaSeparated (q :: rest)

mutual

/-- A value without any blanks. -/
def Value.compact : Value → List Char
  | .null => ['n', 'u', 'l', 'l']
  | .bool true => ['t', 'r', 'u', 'e']
  | .bool false => ['f', 'a', 'l', 's', 'e']
  | .num n => n.text.toList
  | .str s => quoted s
  | .arr items => '[' :: commaSeparated (compactItems items) ++ [']']
  | .obj members => '{' :: commaSeparated (compactMembers members) ++ ['}']

def Value.compactItems : List Value → List (List Char)
  | [] => []
  | v :: vs => v.compact :: compactItems vs

def Value.compactMembers : List (String × Value) → List (List Char)
  | [] => []
  | (k, v) :: rest => (quoted k ++ ':' :: v.compact) :: compactMembers rest

end

def newLine (level : Nat) : List Char := '\n' :: List.replicate (2 * level) ' '

/-- Brackets around parts that stand on lines of their own; nothing stands between the brackets
when there is no part. -/
def block (level : Nat) (opening closing : Char) : List (List Char) → List Char
  | [] => [opening, closing]
  | parts =>
    opening :: commaSeparated (parts.map (newLine (level + 1) ++ ·)) ++ newLine level ++ [closing]

mutual

/-- A value with each item and member on a line of its own. -/
def Value.pretty (level : Nat) : Value → List Char
  | .null => ['n', 'u', 'l', 'l']
  | .bool true => ['t', 'r', 'u', 'e']
  | .bool false => ['f', 'a', 'l', 's', 'e']
  | .num n => n.text.toList
  | .str s => quoted s
  | .arr items => block level '[' ']' (prettyItems (level + 1) items)
  | .obj members => block level '{' '}' (prettyMembers (level + 1) members)

def Value.prettyItems (level : Nat) : List Value → List (List Char)
  | [] => []
  | v :: vs => v.pretty level :: prettyItems level vs

def Value.prettyMembers (level : Nat) : List (String × Value) → List (List Char)
  | [] => []
  | (k, v) :: rest => (quoted k ++ ':' :: ' ' :: v.pretty level) :: prettyMembers level rest

end

def Value.compactText (v : Value) : String := String.ofList v.compact

def Value.prettyText (v : Value) : String := String.ofList (v.pretty 0)

end SpriteStage.Json
