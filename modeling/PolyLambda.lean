import PolyLambda.Log.Report
import PolyLambda.Proofs.Node
import PolyLambda.Session
import PolyLambda.Proofs.Lift
import PolyLambda.Proofs.Walk
import PolyLambda.Proofs.Reduction
import PolyLambda.Proofs.Confluence
import PolyLambda.Proofs.Normalize
import PolyLambda.Proofs.Resolve
import PolyLambda.Proofs.Arms
import PolyLambda.Proofs.Telescope
import PolyLambda.Proofs.Meets
import PolyLambda.Proofs.Safe
import PolyLambda.Proofs.Typing
import PolyLambda.Proofs.Sound
import PolyLambda.Proofs.Complete
import PolyLambda.Proofs.Coupling
import PolyLambda.Proofs.Restore
import PolyLambda.Proofs.Scope
import PolyLambda.Proofs.Expansion
import PolyLambda.Proofs.Instance
import PolyLambda.Proofs.Deeper
import PolyLambda.Proofs.Program
import PolyLambda.Proofs.Levels
import PolyLambda.Proofs.Eager
import PolyLambda.Proofs.Lets
import PolyLambda.Proofs.Ground
import PolyLambda.Proofs.Spans
import PolyLambda.Proofs.Decided
import PolyLambda.Proofs.Enough
import PolyLambda.Proofs.Height
import PolyLambda.Proofs.Within
import PolyLambda.Proofs.Located
import PolyLambda.Proofs.Configure
import PolyLambda.Proofs.Occurrences
import PolyLambda.Proofs.Blocks
import PolyLambda.Proofs.Exhaustive
import PolyLambda.Proofs.Laws
import PolyLambda.Proofs.Shifted
import PolyLambda.Proofs.Unfolding
import PolyLambda.Proofs.FreeVariables
import PolyLambda.Proofs.ArmOrder
import PolyLambda.Proofs.Trace
import PolyLambda.Proofs.Mismatch
import PolyLambda.Proofs.Filters
import PolyLambda.Proofs.Count
