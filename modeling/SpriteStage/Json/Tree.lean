import SpriteStage.Json.Token

/-!
# The tree of a text, as far as it goes

`Builder` shifts the tokens of a text one by one into a `Tree`. The tree of a text that is no JSON
says where it stops being one: a value that should begin and does not, a container that is cut off.
So a reader that walks the tree from the left meets the first fault of the text, be it one of the
grammar or one of its own, and a text of any depth is built without recursion.
-/

namespace SpriteStage.Json

inductive Tail where
  | closed
  /-- The text ends. -/
  | cut
  /-- Neither a comma nor the closing bracket. -/
  | stray
deriving DecidableEq, Repr

inductive Tree where
  /-- A value should begin here, and the text ends. -/
  | absent
  /-- A value should begin here, and something else does. -/
  | broken (f : Fault)
  | null
  | bool (b : Bool)
  | num (n : Scan Number)
  | str (s : Scan String)
  | arr (items : List Tree) (tail : Tail)
  | obj (entries : List (Tree × Tree)) (tail : Tail)

instance : Inhabited Tree := ⟨.absent⟩

/-- An open container around the value that is being read; what it holds already is newest first. -/
inductive Frame where
  | items (items : List Tree)
  | member (key : Tree) (entries : List (Tree × Tree))

/-- What the tokens so far leave open. Lists are newest first. -/
inductive Builder where
  /-- A value must begin. -/
  | value (frames : List Frame)
  /-- After an item of an array, or after its opening bracket when there is no item. -/
  | inArray (items : List Tree) (frames : List Frame)
  /-- After a member of an object, or after its opening bracket when there is no member. -/
  | inObject (entries : List (Tree × Tree)) (frames : List Frame)
  /-- After a comma in an object: a key must begin. -/
  | key (entries : List (Tree × Tree)) (frames : List Frame)
  /-- After a key. -/
  | colon (key : Tree) (entries : List (Tree × Tree)) (frames : List Frame)
  /-- Nothing is open; `more` says whether something follows the value. -/
  | finished (tree : Tree) (more : Bool)

namespace Builder

def start : Builder := .value []

/-- Hands a complete value to the container around it. -/
def close (t : Tree) : List Frame → Builder
  | [] => .finished t false
  | .items items :: fs => .inArray (t :: items) fs
  | .member k entries :: fs => .inObject ((k, t) :: entries) fs

/-- The whole tree when nothing can follow the value `t`. -/
def abandon (t : Tree) : List Frame → Tree
  | [] => t
  | .items items :: fs => abandon (.arr (t :: items).reverse .cut) fs
  | .member k entries :: fs => abandon (.obj ((k, t) :: entries).reverse .cut) fs

/-- The text stops being JSON at `t`. -/
def fail (t : Tree) (fs : List Frame) : Builder := .finished (abandon t fs) false

def beginValue (fs : List Frame) : Token → Builder
  | .openArray => .inArray [] fs
  | .openObject => .inObject [] fs
  | .null => close .null fs
  | .bool b => close (.bool b) fs
  | .num n => close (.num n) fs
  | .str s => close (.str s) fs
  | .broken f => fail (.broken f) fs
  | .closeArray | .closeObject | .comma | .colon => fail (.broken .malformed) fs

def misplacedKey : Token → Tree
  | .openArray => .arr [] .cut
  | .openObject => .obj [] .cut
  | .null => .null
  | .bool b => .bool b
  | .num n => .num n
  | .str s => .str s
  | .broken f => .broken f
  | .closeArray | .closeObject | .comma | .colon => .broken .malformed

def beginKey (entries : List (Tree × Tree)) (fs : List Frame) : Token → Builder
  | .str s => .colon (.str s) entries fs
  | t => fail (.obj ((misplacedKey t, .absent) :: entries).reverse .cut) fs

def step : Builder → Token → Builder
  | .value fs, t => beginValue fs t
  | .inArray items fs, t =>
    match items, t with
    | items, .closeArray => close (.arr items.reverse .closed) fs
    | [], t => beginValue (.items [] :: fs) t
    | items, .comma => .value (.items items :: fs)
    | items, _ => fail (.arr items.reverse .stray) fs
  | .inObject entries fs, t =>
    match entries, t with
    | entries, .closeObject => close (.obj entries.reverse .closed) fs
    | [], t => beginKey [] fs t
    | entries, .comma => .key entries fs
    | entries, _ => fail (.obj entries.reverse .stray) fs
  | .key entries fs, t => beginKey entries fs t
  | .colon k entries fs, t =>
    match t with
    | .colon => .value (.member k entries :: fs)
    | _ => fail (.obj ((k, .broken .malformed) :: entries).reverse .cut) fs
  | .finished tree _, _ => .finished tree true

def tree : Builder → Tree
  | .value fs => abandon .absent fs
  | .inArray items fs => abandon (.arr items.reverse .cut) fs
  | .inObject entries fs => abandon (.obj entries.reverse .cut) fs
  | .key entries fs => abandon (.obj ((.absent, .absent) :: entries).reverse .cut) fs
  | .colon k entries fs => abandon (.obj ((k, .absent) :: entries).reverse .cut) fs
  | .finished t _ => t

def more : Builder → Bool
  | .finished _ m => m
  | _ => false

end Builder

/-- A text as a reader sees it. -/
structure Document where
  tree : Tree
  /-- Whether something other than space follows the value. -/
  more : Bool

def Document.ofTokens (ts : List Token) : Document :=
  let b := ts.foldl Builder.step Builder.start
  ⟨b.tree, b.more⟩

def Document.ofText (text : List Char) : Document := ofTokens (tokens text)

/-! ## Passing over a value -/

def Tail.check : Tail → Except Fault Unit
  | .closed => .ok ()
  | .cut => .error .ended
  | .stray => .error .malformed

def Tree.skipKey : Tree → Except Fault Unit
  | .str s => s.skip
  | .absent => .error .ended
  | _ => .error .malformed

mutual

/-- Passes over a value of which only the grammar is checked. -/
def Tree.skip : Tree → Except Fault Unit
  | .absent => .error .ended
  | .broken f => .error f
  | .null => .ok ()
  | .bool _ => .ok ()
  | .num n => n.skip
  | .str s => s.skip
  | .arr items tail => do
    skipItems items
    tail.check
  | .obj entries tail => do
    skipEntries entries
    tail.check

def Tree.skipItems : List Tree → Except Fault Unit
  | [] => .ok ()
  | t :: ts => do
    t.skip
    skipItems ts

def Tree.skipEntries : List (Tree × Tree) → Except Fault Unit
  | [] => .ok ()
  | (k, v) :: rest => do
    k.skipKey
    v.skip
    skipEntries rest

end

/-! ## Depth -/

mutual

/-- How many containers are nested in one another at most. -/
def Tree.height : Tree → Nat
  | .arr items _ => heightOfItems items + 1
  | .obj entries _ => heightOfEntries entries + 1
  | _ => 0

def Tree.heightOfItems : List Tree → Nat
  | [] => 0
  | t :: ts => max t.height (heightOfItems ts)

def Tree.heightOfEntries : List (Tree × Tree) → Nat
  | [] => 0
  | (_, v) :: rest => max v.height (heightOfEntries rest)

end

end SpriteStage.Json
