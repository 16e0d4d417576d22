import SpriteStage.Input.Escape
import SpriteStage.Preview.Basic
import SpriteStage.Sequencer.Clock

/-!
# Playing

The preview reacts to the events of the terminal until the user quits. All that happens is drawn in
the order in which it happens.
-/

namespace SpriteStage.Preview

structure Reaction where
  drawing : List Draw
  preview : Preview
  quit : Bool

def goOn (r : List Draw × Preview) : Reaction := ⟨r.1, r.2, false⟩

def react (p : Preview) (e : TerminalEvent) : Reaction :=
  let (command, s) := p.controls.respond p.sequencer e
  let p := { p with sequencer := s }
  match command with
  | .quit => ⟨[], p, true⟩
  | .proceed => goOn ([], p)
  | .redraw => goOn p.renderFull
  | .toggleFullscreen =>
    let (drawing, p) := { p with fullscreen := !p.fullscreen }.renderFull
    goOn (.fullscreen p.fullscreen :: drawing, p)
  | command =>
    let (redraw, s) := command.dispatch p.sequencer
    let p := { p with sequencer := s }
    goOn (if redraw then p.renderChrome else ([], p))

def catchUp (p : Preview) : List Draw × Preview :=
  if p.observer.isChanged p.sequencer.store then p.observe p.sequencer.instant else ([], p)

def follow (p : Preview) : List Draw × Preview :=
  { p with sequencer := p.sequencer.settle }.catchUp

/-- Reacts to events up to the one that quits. The tasks have their turns when no event is left. -/
def reactAll (p : Preview) : List TerminalEvent → Reaction
  | [] => goOn p.follow
  | e :: rest =>
    let r := p.react e
    if r.quit then r
    else
      let (drawing, p) := r.preview.catchUp
      let r' := reactAll p rest
      { r' with drawing := r.drawing ++ drawing ++ r'.drawing }

def tick (p : Preview) (ms : Nat) : List Draw × Preview :=
  let p := { p with sequencer := p.sequencer.wait ms }
  let (changes, p) := p.follow
  let (frame, p) := p.frame p.sequencer.instant
  (changes ++ frame, p)

def opening (p : Preview) : List Draw × Preview :=
  let (drawing, p) := p.renderFull
  ([.ownScreen true, .mouseReports true, .cursor false, .clearAll] ++ drawing, p)

def closing : List Draw := [.mouseReports false, .cursor true, .ownScreen false]

/-- All that is drawn when the given bytes are waiting in the terminal. -/
def play (p : Preview) (input : List UInt8) : List Draw :=
  let (drawing, p) := p.opening
  drawing ++ (p.reactAll (Input.events input)).drawing ++ closing

end SpriteStage.Preview
