import Containers.Session
import Containers.Storage.Command
import Containers.Vector.Command
import Containers.Vector.Tenants
import Containers.Flat.Command
import Containers.Map.Command
import Containers.Element.Binary64
import Containers.Proofs.Reachable
import Containers.Proofs.VectorRuns
import Containers.Proofs.Allocations
import Containers.Proofs.Carving
import Containers.Proofs.Tenancy
import Containers.Proofs.Failures
import Containers.Proofs.Independence
import Containers.Proofs.Arranging
import Containers.Proofs.Gathering
import Containers.Proofs.FlatMapRuns
import Containers.Proofs.FlatMultiMapRuns
import Containers.Proofs.Bulk
import Containers.Proofs.Checking
import Containers.Proofs.Depth
import Containers.Proofs.Handles
import Containers.Proofs.Succession
import Containers.Proofs.Visiting
import Containers.Proofs.Graphviz
import Containers.Proofs.Writing
import Containers.Proofs.DoublingTrees
import Containers.Proofs.AddingOne
import Containers.Proofs.Draining
import Containers.Proofs.Exhaustion
import Containers.Proofs.Capacities
import Containers.Proofs.Turning
import Containers.Proofs.Completion
