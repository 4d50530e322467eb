import ScriptMachine.Scope.Dump
import ScriptMachine.Program.Plan
import ScriptMachine.Settings.Document
import ScriptMachine.Proofs.Frames.Exits
import ScriptMachine.Proofs.Faults.Failing
import ScriptMachine.Proofs.Faults.Catching
import ScriptMachine.Proofs.Packages.Returns
import ScriptMachine.Proofs.Packages.Visibility
import ScriptMachine.Proofs.Arena.Handles
import ScriptMachine.Proofs.Arena.Views
import ScriptMachine.Proofs.Frames.Outward
import ScriptMachine.Proofs.Loops.Exhaustion
import ScriptMachine.Proofs.Deferred.Courses
import ScriptMachine.Proofs.Deferred.Owing
import ScriptMachine.Proofs.Deferred.Doings
import ScriptMachine.Proofs.Channels.Traffic
import ScriptMachine.Proofs.Frames.Errands
import ScriptMachine.Proofs.Literals.Runs
import ScriptMachine.Proofs.Constants.Bindings
import ScriptMachine.Proofs.Constants.Calling
import ScriptMachine.Proofs.Constants.Leaving
import ScriptMachine.Proofs.Constants.Runs
import ScriptMachine.Proofs.Typing.Variables
import ScriptMachine.Proofs.Debugging.Transparency
import ScriptMachine.Proofs.Debugging.SteppingOver
import ScriptMachine.Proofs.Code.Relocation
import ScriptMachine.Proofs.Frames.Receivers
import ScriptMachine.Proofs.Frames.Spreading
import ScriptMachine.Proofs.Peephole.Drops
import ScriptMachine.Proofs.Peephole.Fixpoints
import ScriptMachine.Proofs.Peephole.Equivalence
import ScriptMachine.Proofs.Typing.Runs
import ScriptMachine.Proofs.Arena.Cloning
import ScriptMachine.Proofs.Objects.FiniteMaps
import ScriptMachine.Proofs.Objects.FailedUpdates
import ScriptMachine.Proofs.Objects.StructHistories
import ScriptMachine.Proofs.Objects.KeyOrder
import ScriptMachine.Proofs.Operators.Integers
import ScriptMachine.Proofs.Operators.Comparisons
import ScriptMachine.Proofs.Equality.Laws
import ScriptMachine.Proofs.Frames.Blocks
import ScriptMachine.Proofs.Sorting.Courses
import ScriptMachine.Proofs.Objects.Conversions
import ScriptMachine.Proofs.Objects.UnderscoreFields
import ScriptMachine.Proofs.Rendering.Templates
import ScriptMachine.Proofs.Rendering.Documents
