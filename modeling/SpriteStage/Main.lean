import SpriteStage.CommandLine

/-!
# The program

Reads what the command line needs from the system, and writes its answer. `play` draws as time goes
on: it reads the terminal in the background, and thirty times a second lets the time that has passed
pass in the preview too. The terminal is expected to be raw already, and its size to stand in the
variables `COLUMNS` and `LINES`.
-/

namespace SpriteStage.Main

def fileError : IO.Error → FileError
  | .noFileOrDirectory _ _ _ => .notFound
  | .permissionDenied _ _ _ => .denied
  | .invalidArgument _ code details => if code = 36 then .nameTooLong else .other details
  | .inappropriateType _ code details =>
    if code = 20 then .notAFolder else if code = 21 then .isFolder else .other details
  | e => .other (toString e)

def attempt {α : Type} (act : IO α) : IO (Except FileError α) :=
  try
    return .ok (← act)
  catch e =>
    return .error (fileError e)

def settingsText : IO (Option String) := do
  let home := (← IO.getEnv "HOME").getD "."
  let bytes ← attempt (IO.FS.readBinFile (settingsPath home))
  return (bytes.bind textOfBytes).toOption

def terminalSize : IO (Option TerminalSize) := do
  let cols := ((← IO.getEnv "COLUMNS").bind String.toNat?)
  let rows := ((← IO.getEnv "LINES").bind String.toNat?)
  return match cols, rows with
    | some c, some r => some ⟨c, r⟩
    | _, _ => none

/-- The log file that is asked for, and whether it can be opened. -/
def logFile : IO (Option (String × Except FileError Unit)) := do
  match ← IO.getEnv "SPRITE_PLAYGROUND_LOG" with
  | none => return none
  | some path =>
    let opened ← attempt (IO.FS.withFile path .append fun _ => pure ())
    return some (path, opened)

def surroundings (r : Request) : IO Surroundings := do
  let log ← match r with
    | .play _ => logFile
    | _ => pure none
  let seedBytes ← IO.getRandomBytes 8
  return {
    program := ← attempt (IO.FS.readBinFile r.path)
    settings := ← settingsText
    seed := seedBytes.toList.foldl (fun n b => 256 * n + b.toNat) 0
    log
    terminal := ← terminalSize }

def draw (output : IO.FS.Stream) (ds : List Draw) : IO Unit := do
  output.putStr (Draw.escapes ds)
  output.flush

/-- What was read from the terminal and not taken yet. -/
structure Inbox where
  bytes : IO.Ref ByteArray
  ended : IO.Ref Bool

/-- Reads the terminal byte by byte until it ends. -/
partial def readAll (input : IO.FS.Stream) (inbox : Inbox) : IO Unit := do
  let read ← input.read 1
  if read.isEmpty then inbox.ended.set true
  else
    inbox.bytes.modify (· ++ read)
    readAll input inbox

/-- Plays until the user quits or the terminal is gone. -/
partial def playLoop (output : IO.FS.Stream) (inbox : Inbox) (p : Preview) (time : Nat)
    (left : List UInt8) : IO Unit := do
  IO.sleep 33
  let now ← IO.monoMsNow
  let (drawing, p) := p.tick (now - time)
  draw output drawing
  let ended ← inbox.ended.get
  let bytes ← inbox.bytes.modifyGet fun b => (b, ByteArray.empty)
  let (events, left) := Input.eventsFrom left bytes.toList
  let r := p.reactAll events
  draw output r.drawing
  if r.quit || ended then return
  playLoop output inbox r.preview now left

def play (p : Preview) : IO Unit := do
  let input ← IO.getStdin
  let output ← IO.getStdout
  let inbox : Inbox := ⟨← IO.mkRef ByteArray.empty, ← IO.mkRef false⟩
  let _ ← IO.asTask (readAll input inbox) .dedicated
  let (drawing, p) := p.opening
  draw output drawing
  try
    playLoop output inbox p (← IO.monoMsNow) []
  finally
    draw output Preview.closing

def write (a : Answer) : IO UInt32 := do
  IO.eprint a.errors
  IO.print a.output
  return UInt32.ofNat a.code

end SpriteStage.Main

open SpriteStage SpriteStage.Main in
def main (args : List String) : IO UInt32 := do
  match Request.ofArgs args with
  | .error e => write e.answer
  | .ok r =>
    let s ← surroundings r
    match r with
    | .play path =>
      match s.preview path with
      | .error e => write e.answer
      | .ok p =>
        SpriteStage.Main.play p
        return 0
    | r => write (r.answer s [])
