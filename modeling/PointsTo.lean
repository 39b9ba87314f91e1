import PointsTo.Main
import PointsTo.Workbench.Exploration
import PointsTo.Proofs.AbstractTargets
import PointsTo.Proofs.CallHistory
import PointsTo.Proofs.CallPaths
import PointsTo.Proofs.ClassOrder
import PointsTo.Proofs.Dispatches
import PointsTo.Proofs.Expectations
import PointsTo.Proofs.Faultless
import PointsTo.Proofs.FlowHistory
import PointsTo.Proofs.Golden
import PointsTo.Proofs.InFlight
import PointsTo.Proofs.LeastSolution
import PointsTo.Proofs.Limits
import PointsTo.Proofs.Mismatches
import PointsTo.Proofs.Monotonicity
import PointsTo.Proofs.NearestField
import PointsTo.Proofs.Redeclaration
import PointsTo.Proofs.References
import PointsTo.Proofs.Rejection
import PointsTo.Proofs.Reports
import PointsTo.Proofs.Requests
import PointsTo.Proofs.Scope
import PointsTo.Proofs.Selection
import PointsTo.Proofs.Termination
import PointsTo.Proofs.TypeSafety
