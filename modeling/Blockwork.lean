import Blockwork.Block.Basic
import Blockwork.Block.Decode
import Blockwork.Block.Signature
import Blockwork.Code.Basic
import Blockwork.Code.Opcode
import Blockwork.Compile.Compiler
import Blockwork.Compile.Emit
import Blockwork.Compile.Unsupported
import Blockwork.Dictionary
import Blockwork.Engine.Basic
import Blockwork.Engine.Frame
import Blockwork.ItemList
import Blockwork.Json.Basic
import Blockwork.Json.Written
import Blockwork.Machine.Basic
import Blockwork.Machine.Natives
import Blockwork.Machine.Step
import Blockwork.Main
import Blockwork.Native
import Blockwork.Number.Between
import Blockwork.Number.Binary
import Blockwork.Number.Degrees
import Blockwork.Number.Layout
import Blockwork.Number.Numeral
import Blockwork.Number.Shortest
import Blockwork.Palette.Basic
import Blockwork.Palette.Builtin
import Blockwork.Palette.Recipe
import Blockwork.Program
import Blockwork.Project
import Blockwork.Promise
import Blockwork.Session
import Blockwork.Target.Arena
import Blockwork.Target.Basic
import Blockwork.Text.Blank
import Blockwork.Text.CaseTable
import Blockwork.Text.Lowercase
import Blockwork.Thread
import Blockwork.Value
import Blockwork.World.Basic
import Blockwork.World.Host
import Blockwork.World.Questions
import Blockwork.Proofs.Blocks.Commands
import Blockwork.Proofs.Blocks.Graph
import Blockwork.Proofs.Blocks.Kinds
import Blockwork.Proofs.Blocks.Stored
import Blockwork.Proofs.Code.Loops
import Blockwork.Proofs.Code.Matching
import Blockwork.Proofs.Code.Nesting
import Blockwork.Proofs.Code.Operands
import Blockwork.Proofs.Code.Pauses
import Blockwork.Proofs.Code.Placement
import Blockwork.Proofs.Compile.Bodies
import Blockwork.Proofs.Compile.Couples
import Blockwork.Proofs.Compile.Defaults
import Blockwork.Proofs.Compile.Depth
import Blockwork.Proofs.Compile.Discipline
import Blockwork.Proofs.Compile.Interning
import Blockwork.Proofs.Compile.Listing
import Blockwork.Proofs.Compile.Operands
import Blockwork.Proofs.Compile.Pace
import Blockwork.Proofs.Compile.Plans
import Blockwork.Proofs.Compile.Primitives
import Blockwork.Proofs.Compile.Procedures
import Blockwork.Proofs.Compile.Readings
import Blockwork.Proofs.Compile.Repeatable
import Blockwork.Proofs.Compile.Shape
import Blockwork.Proofs.Compile.Tables
import Blockwork.Proofs.Compile.Targets
import Blockwork.Proofs.Compile.Units
import Blockwork.Proofs.Compile.Unsupported
import Blockwork.Proofs.Compile.Waits
import Blockwork.Proofs.Compile.WellFormed
import Blockwork.Proofs.Correct.Commands
import Blockwork.Proofs.Correct.Reporters
import Blockwork.Proofs.Correct.Scripts
import Blockwork.Proofs.Correct.Warp
import Blockwork.Proofs.Engine.Acts
import Blockwork.Proofs.Engine.Deadlock
import Blockwork.Proofs.Engine.Edges
import Blockwork.Proofs.Engine.Held
import Blockwork.Proofs.Engine.Histories
import Blockwork.Proofs.Engine.Lives
import Blockwork.Proofs.Engine.Lodging
import Blockwork.Proofs.Engine.Loop
import Blockwork.Proofs.Engine.Moves
import Blockwork.Proofs.Engine.Promises
import Blockwork.Proofs.Engine.Receivers
import Blockwork.Proofs.Engine.Restarts
import Blockwork.Proofs.Engine.Sound
import Blockwork.Proofs.Engine.Stopped
import Blockwork.Proofs.Engine.Termination
import Blockwork.Proofs.Engine.Threads
import Blockwork.Proofs.Engine.Turns
import Blockwork.Proofs.Machine.Activations
import Blockwork.Proofs.Machine.Alone
import Blockwork.Proofs.Machine.Clones
import Blockwork.Proofs.Machine.Conditions
import Blockwork.Proofs.Machine.Effects
import Blockwork.Proofs.Machine.Faults
import Blockwork.Proofs.Machine.Flow
import Blockwork.Proofs.Machine.Frames
import Blockwork.Proofs.Machine.Instructions
import Blockwork.Proofs.Machine.Isolation
import Blockwork.Proofs.Machine.Lineage
import Blockwork.Proofs.Machine.Lists
import Blockwork.Proofs.Machine.Operands
import Blockwork.Proofs.Machine.Places
import Blockwork.Proofs.Machine.Polling
import Blockwork.Proofs.Machine.Reachable
import Blockwork.Proofs.Machine.Readings
import Blockwork.Proofs.Machine.Running
import Blockwork.Proofs.Machine.Slices
import Blockwork.Proofs.Machine.SlicesEnd
import Blockwork.Proofs.Machine.Slots
import Blockwork.Proofs.Machine.Stepping
import Blockwork.Proofs.Machine.Straight
import Blockwork.Proofs.Machine.Tallies
import Blockwork.Proofs.Machine.Unpaused
import Blockwork.Proofs.Machine.Walks
import Blockwork.Proofs.Number.Arithmetic
import Blockwork.Proofs.Number.Doubles
import Blockwork.Proofs.Number.Floor
import Blockwork.Proofs.Number.Grammar
import Blockwork.Proofs.Number.Layout
import Blockwork.Proofs.Number.Reading
import Blockwork.Proofs.Number.Rounding
import Blockwork.Proofs.Number.Scientific
import Blockwork.Proofs.Number.Shortest
import Blockwork.Proofs.Reference.Evaluator
import Blockwork.Proofs.Reference.Interpreter
import Blockwork.Proofs.Value.Indices
import Blockwork.Proofs.Value.Order
import Blockwork.Proofs.Value.Picks
import Blockwork.Proofs.World.Generations
import Blockwork.Proofs.World.Layout
import Blockwork.Proofs.World.Mail
import Blockwork.Proofs.World.Questions
import Blockwork.Proofs.World.Stage
