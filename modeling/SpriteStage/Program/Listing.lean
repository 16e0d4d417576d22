import SpriteStage.Program.Block

/-!
# The text of a program

A program is written as an array of blocks or as the workspace of the block editor, an object that
holds such an array under `blocks` twice. The first character that is not blank tells the two apart.
A program may be nested to any depth.
-/

namespace SpriteStage

inductive ListingForm where
  | blocks
  | workspace
deriving DecidableEq, Repr

/-- A program as it is written: its form, and the chains it holds. -/
structure Listing where
  form : ListingForm
  chains : List Chain

namespace Listing

open Json

def chainsOfTree (t : Tree) : Except Fault (List Chain) :=
  t.readList (Chain.ofTree t.height)

def innerOfTree (t : Tree) : Except Fault (List Chain) :=
  t.readRecord [Field.of "blocks" .optional chainsOfTree fun chains _ => chains] []

def workspaceOfTree (t : Tree) : Except Fault (List Chain) :=
  t.readRecord [Field.of "blocks" .optional innerOfTree fun chains _ => chains] []

def formOf (text : List Char) : ListingForm :=
  match Text.trimLeft text with
  | '[' :: _ => .blocks
  | _ => .workspace

def readForm : ListingForm → Tree → Except Fault (List Chain)
  | .blocks => chainsOfTree
  | .workspace => workspaceOfTree

def ofChars (text : List Char) : Except Fault Listing :=
  let form := formOf text
  ((Document.ofText text).read (readForm form)).map fun chains => ⟨form, chains⟩

def ofText (text : String) : Except Fault Listing := ofChars text.toList

end Listing

end SpriteStage
