import SpriteStage.Decimal.Numeral
import SpriteStage.Input.Key

/-!
# Terminal input

The events in the bytes that a terminal sends. A key is a character, a control byte or an escape
sequence; a held Alt key puts an escape byte in front of it. A lone escape byte is the Esc key when
nothing else was sent with it, and otherwise the beginning of a sequence.
-/

namespace SpriteStage.Input

inductive Parsed where
  /-- The beginning of something longer. -/
  | incomplete
  | event (e : TerminalEvent)
  /-- Nothing that is known; the bytes are dropped. -/
  | junk
deriving DecidableEq, Repr

def Parsed.plainKey (code : KeyCode) : Parsed := .event (.key { code })

def Parsed.withModifiers (m : Modifiers) (code : KeyCode) : Parsed :=
  .event (.key { code, modifiers := m })

def Parsed.withAlt : Parsed → Parsed
  | .event (.key k) => .event (.key { k with modifiers := { k.modifiers with alt := true } })
  | p => p

/-! ## Numbers in sequences -/

def fields (cs : List Char) : List (List Char) := cs.splitOnP (· = ';')

def subfields (cs : List Char) : List (List Char) := cs.splitOnP (· = ':')

/-- Whether letters that stand for bytes are a text in UTF-8. -/
def isText (cs : List Char) : Bool :=
  (String.fromUTF8? ⟨(cs.map fun c => c.toNat.toUInt8).toArray⟩).isSome

/-- The modifiers of a number: one more than the sum of their bits. -/
def modifiersOf (mask : Nat) : Modifiers :=
  let bits := mask - 1
  { shift := bits.testBit 0, alt := bits.testBit 1, ctrl := bits.testBit 2,
    superKey := bits.testBit 3 }

/-- The modifiers of a field, and whether the key is held or let go, which a second number says. -/
def held? (field : Option (List Char)) : Option (Modifiers × KeyMove) := do
  let parts := subfields (← field)
  let mask ← parts.head?.bind (Decimal.whole? 256)
  let move := match parts[1]?.bind (Decimal.whole? 256) with
    | some 2 => KeyMove.repeated
    | some 3 => .release
    | _ => .press
  return (modifiersOf mask, move)

/-- A key whose modifiers stand in a field, which may be missing or no number. -/
def keyWith (code : KeyCode) (field : Option (List Char)) : Parsed :=
  match held? field with
  | some (modifiers, move) => .event (.key { code, modifiers, move })
  | none => .plainKey code

/-! ## The mouse -/

def coordinateLimit : Nat := 65536

/-- A coordinate that is counted from one; before the first one stands the last. -/
def fromOne (n : Nat) : Nat := (n + coordinateLimit - 1) % coordinateLimit

def mouseMove? (report : Nat) : Option MouseMove :=
  let button := report % 4 + report / 64 % 4 * 4
  if report.testBit 5 then
    if button ≤ 2 then some .dragged else if button ≤ 5 then some .moved else none
  else if button = 0 then some .leftPressed
  else if button ≤ 7 then some .other
  else none

def mouseReport (report col row : Option Nat) (released : Bool) : Parsed :=
  match report.bind mouseMove?, col, row with
  | some move, some c, some r =>
    let move := if released && move = .leftPressed then .other else move
    .event (.mouse move (fromOne c) (fromOne r))
  | _, _, _ => .junk

/-- The report between `<` and its last letter, which says whether a button was let go. -/
def extendedMouse (cs : List Char) : Parsed :=
  match cs.getLast? with
  | some last =>
    if last = 'M' || last = 'm' then
      match fields cs.dropLast with
      | report :: col :: row :: _ =>
        if isText cs then
          mouseReport (Decimal.whole? 256 report) (Decimal.whole? coordinateLimit col)
            (Decimal.whole? coordinateLimit row) (last = 'm')
        else .junk
      | _ => .junk
    else .incomplete
  | none => .incomplete

/-- The report of three characters, which stand for numbers from the blank on. -/
def characterMouse : List Char → Parsed
  | report :: col :: row :: _ =>
    if report.toNat < 32 then .junk
    else mouseReport (some (report.toNat - 32)) (some (col.toNat - 32)) (some (row.toNat - 32)) false
  | _ => .incomplete

def numberedMouse (cs : List Char) : Parsed :=
  match fields cs with
  | report :: col :: row :: _ =>
    match Decimal.whole? 256 report with
    | some n =>
      if n < 32 then .junk
      else mouseReport (some (n - 32)) (Decimal.whole? coordinateLimit col)
        (Decimal.whole? coordinateLimit row) false
    | none => .junk
  | _ => .junk

/-! ## Keys by letter and by number -/

def letterKey? : Char → Option KeyCode
  | 'A' => some .up
  | 'B' => some .down
  | 'C' => some .right
  | 'D' => some .left
  | 'F' => some .endKey
  | 'H' => some .home
  | 'P' => some (.function 1)
  | 'Q' => some (.function 2)
  | 'R' => some (.function 3)
  | 'S' => some (.function 4)
  | _ => none

/-- A sequence that ends in the letter of a key. The modifiers stand in the second field, or else
in the digit before the letter. -/
def letterSequence (body : List Char) (last : Char) : Parsed :=
  let digit := body.getLast?.bind fun c => Decimal.whole? 10 [c]
  let held := (held? (fields body)[1]?).or (digit.map fun d => (modifiersOf d, .press))
  match letterKey? last, held with
  | some code, some (modifiers, move) => .event (.key { code, modifiers, move })
  | _, _ => .junk

def numberKey? (n : Nat) : Option KeyCode :=
  if n = 1 || n = 7 then some .home
  else if n = 2 then some .insert
  else if n = 3 then some .delete
  else if n = 4 || n = 8 then some .endKey
  else if n = 5 then some .pageUp
  else if n = 6 then some .pageDown
  else if 11 ≤ n && n ≤ 15 then some (.function (n - 10))
  else if 17 ≤ n && n ≤ 21 then some (.function (n - 11))
  else if 23 ≤ n && n ≤ 26 then some (.function (n - 12))
  else if 28 ≤ n && n ≤ 29 then some (.function (n - 15))
  else if 31 ≤ n && n ≤ 34 then some (.function (n - 17))
  else none

def tildeSequence (body : List Char) : Parsed :=
  let parts := fields body
  match (parts.head?.bind (Decimal.whole? 256)).bind numberKey? with
  | some code => keyWith code parts[1]?
  | none => .junk

/-! ## Keys by code point -/

def codeLimit : Nat := Nat.pow 2 32

/-- The keys of the number pad from code point 57399 on. -/
def padKeys : List KeyCode :=
  ("0123456789./*-+".toList.map .char) ++
    [.enter, .char '=', .char ',', .left, .right, .up, .down, .pageUp, .pageDown, .home, .endKey,
      .insert, .delete]

/-- The keys with code points of their own, in the private use area: locks, function keys from the
thirteenth on, the number pad, and the keys for media and modifiers. -/
def privateKey? (n : Nat) : Option KeyCode :=
  if 57358 ≤ n && n ≤ 57363 then some (.other n)
  else if 57376 ≤ n && n ≤ 57398 then some (.function (n - 57363))
  else if 57399 ≤ n && n ≤ 57426 then padKeys[n - 57399]?
  else if 57427 ≤ n && n ≤ 57454 then some (.other n)
  else none

/-- The modifier that a key is by itself, on the left or on the right. -/
def ownModifiers (n : Nat) : Modifiers :=
  { shift := n = 57441 || n = 57447, ctrl := n = 57442 || n = 57448,
    alt := n = 57443 || n = 57449, superKey := n = 57444 || n = 57450 }

def charOf? (n : Nat) : Option Char := if n.isValidChar then some (Char.ofNat n) else none

def codeKey? (shift : Bool) (n : Nat) : Option KeyCode :=
  match privateKey? n with
  | some code => some code
  | none =>
    if n = 27 then some .esc
    else if n = 13 then some .enter
    else if n = 9 then some (if shift then .backTab else .tab)
    else if n = 127 then some .backspace
    else (charOf? n).map .char

/-- A sequence of a code point and modifiers. With the Shift key held, the character that the key
has then may follow the code point, and the modifier is spent on it. -/
def codeSequence (body : List Char) : Parsed :=
  let parts := fields body
  let points := (parts.head?.map subfields).getD []
  let point (i : Nat) : Option Nat := points[i]?.bind (Decimal.whole? codeLimit)
  let (modifiers, move) := (held? parts[1]?).getD ({}, .press)
  match point 0 with
  | none => .junk
  | some n =>
    match codeKey? modifiers.shift n with
    | none => .junk
    | some code =>
      let modifiers := modifiers.union (ownModifiers n)
      match if modifiers.shift then (point 1).bind charOf? else none with
      | some c => .event (.key { code := .char c, modifiers := { modifiers with shift := false }, move })
      | none => .event (.key { code, modifiers, move })

/-! ## Sequences -/

/-- A sequence of numbers that ends in a letter or a tilde. -/
def numbered (body : List Char) (last : Char) : Parsed :=
  if !isText body then .junk
  else
    match last with
    | 'M' => numberedMouse body
    | '~' => tildeSequence body
    | 'u' => codeSequence body
    -- a report of the cursor's place
    | 'R' => .junk
    | c => letterSequence body c

/-- What stands around a pasted text, after the escape byte and the bracket of the first mark. -/
def pasteStart : List Char := "200~".toList
def pasteEnd : List Char := "\x1b[201~".toList

/-- A sequence after the escape byte and an opening bracket that begins with a digit. It goes on up
to a letter or another of the bytes that may end one; a pasted text goes on up to its mark. -/
def digitSequence (cs : List Char) : Parsed :=
  match cs.tail.getLast? with
  | none => .incomplete
  | some last =>
    if last.toNat < 64 || 126 < last.toNat then .incomplete
    else if pasteStart.isPrefixOf cs then
      if pasteEnd.isSuffixOf cs then .event .other else .incomplete
    else numbered cs.dropLast last

def bracketed : List Char → Parsed
  | [] => .incomplete
  | '[' :: rest =>
    match rest with
    | [] => .incomplete
    | c :: _ =>
      if 'A' ≤ c && c ≤ 'E' then .plainKey (.function (1 + c.toNat - 'A'.toNat)) else .junk
  | 'Z' :: _ => .withModifiers { shift := true } .backTab
  | 'M' :: rest => characterMouse rest
  | '<' :: rest => extendedMouse rest
  | 'I' :: _ => .event .other
  | 'O' :: _ => .event .other
  | 'R' :: _ => .junk
  -- an answer of the terminal about itself
  | '?' :: rest =>
    match rest.getLast? with
    | some 'u' => if rest.length < 2 then .incomplete else .junk
    | some 'c' => .junk
    | _ => .incomplete
  | c :: rest =>
    if c.isDigit then digitSequence (c :: rest)
    else
      match letterKey? c with
      | some code => .plainKey code
      | none => .junk

def shifted : List Char → Parsed
  | [] => .incomplete
  | c :: _ =>
    match letterKey? c with
    | some code => .plainKey code
    | none => .junk

/-- A control byte: a key of its own, or a character with the Ctrl key held. -/
def control (b : Nat) : Parsed :=
  if b = 0x0D then .plainKey .enter
  else if b = 0x09 then .plainKey .tab
  else if b = 0x7F then .plainKey .backspace
  else if b = 0 then .withModifiers { ctrl := true } (.char ' ')
  else if b ≤ 0x1A then .withModifiers { ctrl := true } (.char (Char.ofNat (b - 1 + 'a'.toNat)))
  else .withModifiers { ctrl := true } (.char (Char.ofNat (b - 0x1C + '4'.toNat)))

def encodedLength (b : Nat) : Nat :=
  if b < 0x80 then 1
  else if b < 0xC0 then 0
  else if b < 0xE0 then 2
  else if b < 0xF0 then 3
  else if b < 0xF8 then 4
  else 0

def character (bytes : List UInt8) : Parsed :=
  match (String.fromUTF8? ⟨bytes.toArray⟩).map String.toList with
  | some (c :: _) => .plainKey (.char c)
  | _ =>
    let needed := encodedLength (bytes.headD 0).toNat
    if bytes.tail.all (fun b => 0x80 ≤ b && b < 0xC0) && bytes.length < needed then .incomplete
    else .junk

def letters (bytes : List UInt8) : List Char := bytes.map fun b => Char.ofNat b.toNat

/-- What the bytes gathered so far are; `more` says whether others were sent with them. -/
def parse (more : Bool) : List UInt8 → Parsed
  | [] => .incomplete
  | b :: rest =>
    if b = 0x1B then
      match rest with
      | [] => if more then .incomplete else .plainKey .esc
      | c :: tail =>
        if c = 0x5B then bracketed (letters tail)
        else if c = 0x4F then shifted (letters tail)
        else if c = 0x1B then .plainKey .esc
        else (parse more (c :: tail)).withAlt
    else if b < 0x20 || b = 0x7F then control b.toNat
    else character (b :: rest)

/-- The events in bytes that were sent together, after bytes that were left over (oldest first), and
the bytes that are left over now. -/
def eventsFrom (gathered : List UInt8) : List UInt8 → List TerminalEvent × List UInt8
  | [] => ([], gathered)
  | b :: rest =>
    let bytes := gathered ++ [b]
    match parse (!rest.isEmpty) bytes with
    | .incomplete => eventsFrom bytes rest
    | .junk => eventsFrom [] rest
    | .event e =>
      let (es, left) := eventsFrom [] rest
      (e :: es, left)

def events (bytes : List UInt8) : List TerminalEvent := (eventsFrom [] bytes).1

end SpriteStage.Input
