import Reclaim.CountedRef.Script
import Reclaim.CountedStack.Session
import Reclaim.Hazard.RegistryFull
import Reclaim.Hazard.Session.Finale
import Reclaim.Hazard.Session.Perform
import Reclaim.LimboList.Session
import Reclaim.Proofs.CountedStack.Abandonment
import Reclaim.Proofs.CountedStack.Commuting
import Reclaim.Proofs.CountedStack.ExactCounts
import Reclaim.Proofs.CountedStack.Finishing
import Reclaim.Proofs.CountedStack.Hints
import Reclaim.Proofs.CountedStack.Indifference
import Reclaim.Proofs.CountedStack.Nesting
import Reclaim.Proofs.CountedStack.Ownership
import Reclaim.Proofs.CountedStack.Reclamation
import Reclaim.Proofs.CountedStack.Safety
import Reclaim.Proofs.CountedStack.Winner
import Reclaim.Proofs.Dropping
import Reclaim.Proofs.Hazard.Borrowing
import Reclaim.Proofs.Hazard.Failures
import Reclaim.Proofs.Hazard.LifeCycle
import Reclaim.Proofs.Hazard.LinkedReclaim
import Reclaim.Proofs.LimboList.Snapshots
import Reclaim.Proofs.Ownership
import Reclaim.Proofs.SharedStack.Agreement
import Reclaim.Proofs.Workload.Stacks
import Reclaim.SharedStack.Session
import Reclaim.Stress
import Reclaim.Timings
import Reclaim.Value
import Reclaim.Workload.Trial
