import SpriteStage.Decimal.Binary

/-!
# JSON values

The values a JSON text denotes. The members of an object are kept in the order of their keys by
code point, each key once, as long as they are added by `putMember`.
-/

namespace SpriteStage.Json

/-- A JSON number: a whole number written without point and exponent, or a double. -/
inductive Number where
  | int (n : Int)
  | float (x : Float)

def Number.toFloat : Number → Float
  | .int n => Decimal.nearestDouble (n < 0) n.natAbs 1
  | .float x => x

inductive Value where
  | null
  | bool (b : Bool)
  | num (n : Number)
  | str (s : String)
  | arr (items : List Value)
  | obj (members : List (String × Value))

instance : Inhabited Value := ⟨.null⟩

/-- Adds a member at the place of its key; a key that is there already gets the new value. -/
def putMember {α : Type} (key : String) (value : α) : List (String × α) → List (String × α)
  | [] => [(key, value)]
  | (k, v) :: rest =>
    if key < k then (key, value) :: (k, v) :: rest
    else if k < key then (k, v) :: putMember key value rest
    else (key, value) :: rest

def member? {α : Type} (key : String) (members : List (String × α)) : Option α :=
  (members.find? fun m => m.1 = key).map Prod.snd

end SpriteStage.Json
