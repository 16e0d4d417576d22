/-!
# Drawing on a terminal

What is drawn is a list of commands to the terminal; `Draw.escape` is the text that a terminal reads
for one. Columns and rows count from zero.
-/

namespace SpriteStage

inductive Style where
  | bold
  | dim
  | italic
deriving DecidableEq, Repr

inductive Draw where
  | moveTo (col row : Nat)
  | clearLine
  | clearAll
  | style (s : Style)
  | plain
  | text (s : String)
  /-- Leaves the shell's screen for one of its own, or goes back. -/
  | ownScreen (on : Bool)
  /-- Has the mouse reported. -/
  | mouseReports (on : Bool)
  | cursor (shown : Bool)
  | fullscreen (on : Bool)
deriving DecidableEq, Repr

def escapeStart : String := "\x1b["

def Style.code : Style → String
  | .bold => "1"
  | .dim => "2"
  | .italic => "3"

namespace Draw

def mode (number : Nat) (on : Bool) : String :=
  escapeStart ++ "?" ++ toString number ++ (if on then "h" else "l")

/-- The modes in which the mouse is reported: clicks, drags, movement, and two forms of the
report. -/
def mouseModes : List Nat := [1000, 1002, 1003, 1015, 1006]

def escape : Draw → String
  | .moveTo col row => escapeStart ++ toString (row + 1) ++ ";" ++ toString (col + 1) ++ "H"
  | .clearLine => escapeStart ++ "2K"
  | .clearAll => escapeStart ++ "2J"
  | .style s => escapeStart ++ s.code ++ "m"
  | .plain => escapeStart ++ "0m"
  | .text s => s
  | .ownScreen on => mode 1049 on
  | .mouseReports true => String.join (mouseModes.map (mode · true))
  | .mouseReports false => String.join (mouseModes.reverse.map (mode · false))
  | .cursor shown => mode 25 shown
  | .fullscreen on => escapeStart ++ "10;" ++ (if on then "1" else "0") ++ "t"

/-- A text in a style, which ends with the text. -/
def styled (style : Option Style) (s : String) : List Draw :=
  match style with
  | none => [.text s]
  | some st => [.style st, .text s, .plain]

def escapes (ds : List Draw) : String := String.join (ds.map escape)

end Draw

end SpriteStage
