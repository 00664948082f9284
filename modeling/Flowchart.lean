import Flowchart.Main
import Flowchart.Sketch
import Flowchart.Proofs.Change
import Flowchart.Proofs.Arena
import Flowchart.Proofs.Slots
import Flowchart.Proofs.Walk
import Flowchart.Proofs.BranchLoop
import Flowchart.Proofs.ArrowRules
import Flowchart.Proofs.Import
import Flowchart.Proofs.Driver
import Flowchart.Proofs.Acceptance
import Flowchart.Proofs.ClosedScript
import Flowchart.Proofs.Coverage
import Flowchart.Proofs.UncheckedImport
import Flowchart.Proofs.ArrowOrder
import Flowchart.Proofs.ScriptBytes
import Flowchart.Proofs.DefinitionText
import Flowchart.Proofs.FirstDefect
import Flowchart.Proofs.LooseEnds
import Flowchart.Proofs.History
import Flowchart.Proofs.IterationGuard
import Flowchart.Proofs.Preorder
import Flowchart.Proofs.Traversal
import Flowchart.Proofs.Switches
import Flowchart.Proofs.TwoSteps
import Flowchart.Proofs.Removal
import Flowchart.Proofs.FaithfulImport
import Flowchart.Proofs.StraightLine
import Flowchart.Proofs.TruncatedScript
import Flowchart.Proofs.UnreachablePart
import Flowchart.Proofs.JsonScalar
import Flowchart.Proofs.JsonTree
import Flowchart.Proofs.JsonReading
import Flowchart.Proofs.JsonRecord
import Flowchart.Proofs.DefinitionForms
import Flowchart.Proofs.ChangedBody
import Flowchart.Proofs.RenderedBody
import Flowchart.Proofs.JsonUnique
import Flowchart.Proofs.ScriptText
import Flowchart.Proofs.RoutineText
