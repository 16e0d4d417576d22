import SpriteStage.Angle
import SpriteStage.CommandLine
import SpriteStage.Decimal.Binary
import SpriteStage.Decimal.Layout
import SpriteStage.Decimal.Numeral
import SpriteStage.Decimal.Rounding
import SpriteStage.Decimal.Shortest
import SpriteStage.Duration
import SpriteStage.Files
import SpriteStage.Input.Binding
import SpriteStage.Input.Command
import SpriteStage.Input.Escape
import SpriteStage.Input.Key
import SpriteStage.Json.Printer
import SpriteStage.Json.Reading
import SpriteStage.Json.Token
import SpriteStage.Json.Tree
import SpriteStage.Json.Value
import SpriteStage.Main
import SpriteStage.MenuBar
import SpriteStage.Pointer
import SpriteStage.Preview.Basic
import SpriteStage.Preview.Play
import SpriteStage.Preview.Tween
import SpriteStage.Program.Action
import SpriteStage.Program.Block
import SpriteStage.Program.Listing
import SpriteStage.Program.Script
import SpriteStage.Proofs.Json.Building
import SpriteStage.Proofs.Json.Following
import SpriteStage.Proofs.Json.Grammar
import SpriteStage.Proofs.Json.Nesting
import SpriteStage.Proofs.Json.Quoting
import SpriteStage.Proofs.Json.RoundTrip
import SpriteStage.Proofs.Json.Spelling
import SpriteStage.Proofs.Pointer.Purity
import SpriteStage.Proofs.Pointer.Queries
import SpriteStage.Proofs.Pointer.Spacing
import SpriteStage.Proofs.Pointer.Staleness
import SpriteStage.Proofs.Preview.Clicks
import SpriteStage.Proofs.Preview.Fitting
import SpriteStage.Proofs.Preview.HitTest
import SpriteStage.Proofs.Preview.Layers
import SpriteStage.Proofs.Preview.Painting
import SpriteStage.Proofs.Preview.Showing
import SpriteStage.Proofs.Preview.Tweens
import SpriteStage.Proofs.Program.Delimiting
import SpriteStage.Proofs.Program.Forms
import SpriteStage.Proofs.Program.RoundTrip
import SpriteStage.Proofs.Program.Typing
import SpriteStage.Proofs.Screen.Cells
import SpriteStage.Proofs.Screen.Items
import SpriteStage.Proofs.Screen.Marks
import SpriteStage.Proofs.Sequencer.After
import SpriteStage.Proofs.Sequencer.Calls
import SpriteStage.Proofs.Sequencer.Cancellation
import SpriteStage.Proofs.Sequencer.Clears
import SpriteStage.Proofs.Sequencer.Endings
import SpriteStage.Proofs.Sequencer.Expiry
import SpriteStage.Proofs.Sequencer.Finality
import SpriteStage.Proofs.Sequencer.Idle
import SpriteStage.Proofs.Sequencer.InFlight
import SpriteStage.Proofs.Sequencer.Ledger
import SpriteStage.Proofs.Sequencer.Leftovers
import SpriteStage.Proofs.Sequencer.Lines
import SpriteStage.Proofs.Sequencer.Owners
import SpriteStage.Proofs.Sequencer.Past
import SpriteStage.Proofs.Sequencer.Playing
import SpriteStage.Proofs.Sequencer.Pristine
import SpriteStage.Proofs.Sequencer.Refinement
import SpriteStage.Proofs.Sequencer.Replay
import SpriteStage.Proofs.Sequencer.Reset
import SpriteStage.Proofs.Sequencer.RoundRobin
import SpriteStage.Proofs.Sequencer.Runs
import SpriteStage.Proofs.Sequencer.Settling
import SpriteStage.Proofs.Sequencer.Steps
import SpriteStage.Proofs.Sequencer.Targets
import SpriteStage.Proofs.Sequencer.Tasks
import SpriteStage.Proofs.Sequencer.Touches
import SpriteStage.Proofs.Sequencer.Turns
import SpriteStage.Proofs.Sequencer.Twins
import SpriteStage.Proofs.Sequencer.UndoStack
import SpriteStage.Proofs.Sequencer.Waiting
import SpriteStage.Proofs.Sequencer.Walks
import SpriteStage.Proofs.Sequencer.WellFormed
import SpriteStage.Proofs.Sprite.Observers
import SpriteStage.Proofs.Sprite.Reports
import SpriteStage.Proofs.Sprite.Slots
import SpriteStage.Random
import SpriteStage.Screen
import SpriteStage.Sequencer.Basic
import SpriteStage.Sequencer.Clock
import SpriteStage.Sequencer.Journal
import SpriteStage.Sequencer.Runs
import SpriteStage.Sequencer.Schedule
import SpriteStage.Sequencer.Scope
import SpriteStage.Sequencer.Task
import SpriteStage.Sequencer.Trigger
import SpriteStage.Sequencer.Turn
import SpriteStage.Settings
import SpriteStage.Sprite.Motion
import SpriteStage.Sprite.Store
import SpriteStage.Sprite.Transition
import SpriteStage.Stage
import SpriteStage.Text.Blank
import SpriteStage.Proofs.Json.Meaning
import SpriteStage.Proofs.Json.Members
import SpriteStage.Proofs.Settings.Overlay
