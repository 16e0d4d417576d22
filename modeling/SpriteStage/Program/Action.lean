import SpriteStage.Program.Block

/-!
# Actions

What a block does when it is executed. Each known kind of block has fields of its own; a block of an
unknown kind is kept under its name and does nothing.
-/

namespace SpriteStage

inductive Event where
  | flagClicked
  | keyPressed
  | spriteClicked
deriving DecidableEq, Repr

namespace Event

/-- The kind of the block that stands for the event. -/
def name : Event → String
  | .flagClicked => "when_flag_clicked"
  | .keyPressed => "when_key_pressed"
  | .spriteClicked => "when_sprite_clicked"

def all : List Event := [.flagClicked, .keyPressed, .spriteClicked]

def ofName? (name : String) : Option Event := all.find? fun e => e.name = name

theorem ofName?_name (e : Event) : ofName? e.name = some e := by cases e <;> decide

def ofName (name : String) : Except ProgramError Event :=
  match ofName? name with
  | some e => .ok e
  | none => .error (.unknownEvent name)

end Event

inductive PointTarget where
  | pointer
  | other (name : String)
deriving DecidableEq, Repr

def PointTarget.ofName (name : String) : PointTarget :=
  if name = "MOUSE_POINTER" then .pointer else .other name

inductive Action where
  | hat (event : Event)
  | goTo (x y : Float)
  | goToRandom
  | clockwise (angle : Float)
  | anticlockwise (angle : Float)
  | glide (seconds x y : Float)
  | glideRandom (seconds : Float)
  | pointInDirection (direction : Float)
  | pointTowards (target : PointTarget)
  | move (steps : Float)
  | changeXBy (delta : Float)
  | setX (x : Float)
  | changeYBy (delta : Float)
  | setY (y : Float)
  | sayForSeconds (message : String) (seconds : Float)
  | say (message : String)
  | thinkForSeconds (message : String) (seconds : Float)
  | think (message : String)
  | changeSize (delta : Float)
  | unrecognized (kind : String)

namespace Action

def kind : Action → String
  | .hat event => event.name
  | .goTo _ _ => "go_to"
  | .goToRandom => "go_to_random"
  | .clockwise _ => "clockwise"
  | .anticlockwise _ => "anticlockwise"
  | .glide _ _ _ => "glide"
  | .glideRandom _ => "glide_random"
  | .pointInDirection _ => "point_in_direction"
  | .pointTowards _ => "point_towards"
  | .move _ => "move"
  | .changeXBy _ => "change_x_by"
  | .setX _ => "set_x"
  | .changeYBy _ => "change_y_by"
  | .setY _ => "set_y"
  | .sayForSeconds _ _ => "say_for_seconds"
  | .say _ => "say"
  | .thinkForSeconds _ _ => "think_for_seconds"
  | .think _ => "think"
  | .changeSize _ => "change_size"
  | .unrecognized kind => kind

def event? : Action → Option Event
  | .hat event => some event
  | _ => none

/-- The action of a block. Of two faulty fields the one that its kind names first is reported. -/
def ofBlock (b : Block) : Except ProgramError Action :=
  match b.kind with
  | "go_to" => do return .goTo (← b.number "x_position") (← b.number "y_position")
  | "go_to_random" => .ok .goToRandom
  | "clockwise" => do return .clockwise (← b.number "angle")
  | "anticlockwise" => do return .anticlockwise (← b.number "angle")
  | "glide" => do
    return .glide (← b.number "seconds") (← b.number "x_position") (← b.number "y_position")
  | "glide_random" => do return .glideRandom (← b.number "seconds")
  | "point_in_direction" => do return .pointInDirection (← b.number "direction")
  | "point_towards" => do return .pointTowards (.ofName (← b.text "target"))
  | "move" => do return .move (← b.number "x_position")
  | "change_x_by" => do return .changeXBy (← b.number "delta_x")
  | "set_x" => do return .setX (← b.number "x_position")
  | "change_y_by" => do return .changeYBy (← b.number "delta_y")
  | "set_y" => do return .setY (← b.number "y_position")
  | "say_for_seconds" => do
    return .sayForSeconds (← b.text "message") (← b.number "seconds")
  | "say" => do return .say (← b.text "message")
  | "think_for_seconds" => do
    return .thinkForSeconds (← b.text "message") (← b.number "seconds")
  | "think" => do return .think (← b.text "message")
  | "change_size" => do return .changeSize (← b.number "size")
  | other =>
    match Event.ofName? other with
    | some event => .ok (.hat event)
    | none => .ok (.unrecognized other)

end Action

end SpriteStage
