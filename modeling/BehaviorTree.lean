import BehaviorTree.Main
import BehaviorTree.Text.Qualified
import BehaviorTree.Proofs.Library.Running
import BehaviorTree.Proofs.Library.Soundness
import BehaviorTree.Proofs.Library.DeadData
import BehaviorTree.Proofs.Library.ActiveShape
import BehaviorTree.Proofs.Structure.Refinement
import BehaviorTree.Proofs.Trace.Discipline
import BehaviorTree.Proofs.Library.Bounds
import BehaviorTree.Proofs.Wire.RoundTrip
import BehaviorTree.Proofs.Library.Preflight
import BehaviorTree.Proofs.Library.DeclaredAccess
import BehaviorTree.Proofs.Library.Renewal
import BehaviorTree.Proofs.Structure.Independence
import BehaviorTree.Proofs.Library.Confined
import BehaviorTree.Proofs.Library.Reentrance
import BehaviorTree.Proofs.Variable.Resolve
import BehaviorTree.Proofs.Variable.InPlace
import BehaviorTree.Proofs.Layout.Depths
import BehaviorTree.Proofs.Library.Nesting
import BehaviorTree.Proofs.Library.Preemption
import BehaviorTree.Proofs.Structure.Repetition
import BehaviorTree.Proofs.Layout.Levels
import BehaviorTree.Proofs.Trace.Unnoticed
import BehaviorTree.Proofs.Structure.Duality
import BehaviorTree.Proofs.Structure.Loops
import BehaviorTree.Proofs.Structure.Flattening
import BehaviorTree.Proofs.Machine.Setup
import BehaviorTree.Proofs.Variable.FirstStrategy
import BehaviorTree.Proofs.Blackboard.TypedMaps
import BehaviorTree.Proofs.Variable.Listed
import BehaviorTree.Proofs.Trace.Text
