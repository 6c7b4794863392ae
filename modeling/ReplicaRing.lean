import ReplicaRing.Cluster.Action
import ReplicaRing.Main
import ReplicaRing.Proofs.Causality
import ReplicaRing.Proofs.Circling
import ReplicaRing.Proofs.Concluding
import ReplicaRing.Proofs.Converging
import ReplicaRing.Proofs.Delivering
import ReplicaRing.Proofs.Executing
import ReplicaRing.Proofs.Following
import ReplicaRing.Proofs.Forwarding
import ReplicaRing.Proofs.Homing
import ReplicaRing.Proofs.Identifying
import ReplicaRing.Proofs.Lexing
import ReplicaRing.Proofs.Parsing
import ReplicaRing.Proofs.Partitioning
import ReplicaRing.Proofs.Refusing
import ReplicaRing.Proofs.Repeating
import ReplicaRing.Proofs.Rereading
import ReplicaRing.Proofs.Restating
import ReplicaRing.Proofs.Retiring
import ReplicaRing.Proofs.Scanning
import ReplicaRing.Proofs.Superseding
import ReplicaRing.Proofs.Trials
import ReplicaRing.Routing.Script
