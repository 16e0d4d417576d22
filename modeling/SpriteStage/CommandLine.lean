import SpriteStage.Files
import SpriteStage.Preview.Play

/-!
# The command line

`check` lists the scripts of a program, `run` executes it from an event to its end and writes the
sprite, and `play` shows it. This module says what each of them writes; nothing here reads or waits.
-/

namespace SpriteStage

/-! ## Requests -/

inductive Request where
  | play (path : String)
  | run (path : String) (event : Event)
  | check (path : String)
deriving DecidableEq, Repr

def playUsage : String := "sprite-playground play <program.json>"
def runUsage : String := "sprite-playground run <program.json> [event]"
def checkUsage : String := "sprite-playground check <program.json>"

def usage : String :=
  "Sprite Playground — block program previewer\n\nUsage:\n  " ++ playUsage ++ "\n  " ++ runUsage ++
    "\n  " ++ checkUsage

inductive CommandError where
  /-- The request is none. -/
  | usage
  /-- A request lacks its path; this is how it is written. -/
  | missingPath (form : String)
  | event (e : ProgramError)
  | log (path : String) (e : FileError)
  | unreadable (path : String) (e : FileError)
  | program (path : String) (e : ProgramError)
  | noTerminal
  | terminalTooSmall (needed found : TerminalSize)
deriving DecidableEq, Repr

def TerminalSize.words (t : TerminalSize) : String := toString t.cols ++ "x" ++ toString t.rows

def CommandError.message : CommandError → String
  | .usage => SpriteStage.usage
  | .missingPath form => form
  | .event e => e.message
  | .log path e => "Failed to open log file " ++ path ++ ": " ++ e.message
  | .unreadable path e =>
    "Failed to load " ++ path ++ ": failed to read " ++ path ++ ": " ++ e.message
  | .program path e => "Failed to load " ++ path ++ ": " ++ e.message
  | .noTerminal => "Inappropriate ioctl for device (os error 25)"
  | .terminalTooSmall needed found =>
    "Terminal too small: need " ++ needed.words ++ ", have " ++ found.words

namespace Request

def ofArgs : List String → Except CommandError Request
  | "play" :: path :: _ => .ok (.play path)
  | ["play"] => .error (.missingPath playUsage)
  | ["run"] => .error (.missingPath runUsage)
  | ["run", path] => .ok (.run path .flagClicked)
  | "run" :: path :: name :: _ =>
    match Event.ofName name with
    | .ok event => .ok (.run path event)
    | .error e => .error (.event e)
  | "check" :: path :: _ => .ok (.check path)
  | ["check"] => .error (.missingPath checkUsage)
  | _ => .error .usage

def path : Request → String
  | .play path => path
  | .run path _ => path
  | .check path => path

end Request

/-! ## Answers -/

/-- What a request writes, and the code it ends with. -/
structure Answer where
  code : Nat
  output : String
  errors : String
deriving DecidableEq, Repr

def CommandError.answer (e : CommandError) : Answer := ⟨1, "", "Error: " ++ e.message ++ "\n"⟩

/-- What a request finds around it. -/
structure Surroundings where
  /-- The file of the program. -/
  program : Except FileError ByteArray
  /-- The text of the settings, if there is one. -/
  settings : Option String
  /-- The seed for settings that name none. -/
  seed : Nat
  /-- The log file that is asked for, and whether it can be opened. -/
  log : Option (String × Except FileError Unit)
  terminal : Option TerminalSize

def settingsPath (home : String) : String := home ++ "/.config/sprite-playground/config.json"

/-- What a request finds in a system of files. Only `play` opens the log, before it reads. -/
def Request.surroundings (r : Request) (system : FileSystem) (home : String) (log : Option String)
    (seed : Nat) (terminal : Option TerminalSize) : Surroundings :=
  let opened := match r with
    | .play _ => log.map fun path => (path, system.append path)
    | _ => none
  let system := match opened with
    | some (_, .ok after) => after
    | _ => system
  { program := system.read r.path
    settings := ((system.read (settingsPath home)).bind textOfBytes).toOption
    seed
    log := opened.map fun (path, result) => (path, result.map fun _ => ())
    terminal }

namespace Surroundings

/-- The settings; a text that is none counts as none. -/
def settingsOf (s : Surroundings) : Settings :=
  match s.settings with
  | none => {}
  | some text => (Settings.ofText text).toOption.getD {}

def load (s : Surroundings) (path : String) : Except CommandError Program :=
  match s.program.bind textOfBytes with
  | .error e => .error (.unreadable path e)
  | .ok text => (Program.ofText text).mapError (.program path)

end Surroundings

def linesText (ls : List String) : String := String.join (ls.map (· ++ "\n"))

def Script.lines (n : Nat) (s : Script) : List String :=
  let note := if s.head.event?.isSome then "" else " (not attached to an event; never runs)"
  ("chain " ++ toString n ++ ": " ++ toString s.actions.length ++ " step(s), starts with " ++
    s.head.kind ++ note) :: s.rest.map fun a => "    " ++ a.kind

def Program.checkAnswer (p : Program) : Answer :=
  let scripts := (p.scripts.zipIdx 1).flatMap fun (s, n) => s.lines n
  let counts := Event.all.map fun e =>
    e.name ++ ": " ++ toString (p.scriptsFor e).length ++ " chain(s)"
  ⟨0, linesText scripts, linesText counts⟩

/-- The answer to `run`: the run that was started, and the sprite when nothing is in flight any
more. The clock is a real one, on which every sleep ends a turn. -/
def Program.runAnswer (p : Program) (settings : Settings) (seed : Nat) (event : Event) : Answer :=
  let bounds : Bounds := .onStage (Stage.ofSettings settings.stage 0 0) none
  let s := { Sequencer.ofSettings settings bounds seed with lag := 1 }.replaceProgram p
  let (started, s) := s.start event
  let note := match started with
    | some run => "Started run " ++ Preview.runName run ++ " for " ++ event.name
    | none => "No chains for " ++ event.name
  ⟨0, s.settle.waitIdle.store.motion.toValue.prettyText ++ "\n", note ++ "\n"⟩

def Surroundings.preview (s : Surroundings) (path : String) : Except CommandError Preview := do
  if let some (log, .error e) := s.log then .error (.log log e)
  let program ← s.load path
  let settings := s.settingsOf
  match s.terminal with
  | none => .error .noTerminal
  | some found =>
    let needed := Preview.requiredSize (Preview.stageOf settings.stage)
    if found.cols < needed.cols || found.rows < needed.rows then
      .error (.terminalTooSmall needed found)
    else
      let sequencer := Sequencer.ofSettings settings (Preview.boundsOf settings.stage) s.seed
      return Preview.ofSequencer (sequencer.replaceProgram program) settings found

def Request.answer (r : Request) (s : Surroundings) (input : List UInt8) : Answer :=
  let answer : Except CommandError Answer :=
    match r with
    | .check path => (s.load path).map Program.checkAnswer
    | .run path event => (s.load path).map fun p => p.runAnswer s.settingsOf s.seed event
    | .play path => (s.preview path).map fun p => ⟨0, Draw.escapes (p.play input), ""⟩
  match answer with
  | .ok a => a
  | .error e => e.answer

end SpriteStage
