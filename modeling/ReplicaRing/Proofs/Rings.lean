import Mathlib.Data.List.Nodup
import ReplicaRing.Cluster.Action
import ReplicaRing.Proofs.Building

/-! A ring as it is set up: a topology built from a configuration in which no endpoint occurs
twice, one partitioner for all clients, and the identities of the stores. Its shards and the
seats of its servers go by the same numbers, and an endpoint tells its seat. -/

namespace ReplicaRing

def Config.endpoints (config : Config) : List Endpoint :=
  config.nodes.flatMap fun descriptor => [descriptor.address.sync, descriptor.address.async]

/-- A cluster to be, with pairwise distinct addresses, and the clients that share it. -/
structure Ring where
  config : Config
  topology : Topology
  built : Topology.build config = .ok topology
  apart : config.endpoints.Nodup
  partitioner : Partitioner
  setup : Cluster.Setup

namespace Ring

/-- The number of a shard, and of the seat of its owner's server. -/
abbrev Seat (ring : Ring) : Type := Fin ring.topology.count

def client (ring : Ring) : Client where
  topology := ring.topology
  partitioner := ring.partitioner

def node (ring : Ring) (seat : ring.Seat) : Node :=
  ring.topology.nodes.get seat

def address (ring : Ring) (seat : ring.Seat) : Address :=
  (ring.node seat).primary

def shardOf (ring : Ring) (key : String) : ring.Seat :=
  ring.topology.shardOf ring.partitioner key

def Registered (ring : Ring) (seat : ring.Seat) : Prop :=
  ring.setup.registers (ring.node seat) = true

/-- The machine of a seat can be reached and is one of a shard's holders. -/
structure Holds (ring : Ring) (seat shard : ring.Seat) : Prop where
  registered : ring.Registered seat
  holder : ring.address seat ∈ (ring.node shard).holders

def Identified (ring : Ring) : Prop :=
  ∀ first second : ring.Seat,
    ring.setup.identity (ring.node first) = ring.setup.identity (ring.node second) → first = second

variable (ring : Ring)

private theorem endpoints_apart :
    (ring.topology.nodes.flatMap fun node => [node.primary.sync, node.primary.async]).Nodup := by
  have primaries := Topology.build_primaries ring.built
  have same : ring.config.endpoints =
      ring.topology.nodes.flatMap fun node => [node.primary.sync, node.primary.async] := by
    calc ring.config.endpoints
        = (ring.config.nodes.map (·.address)).flatMap fun address => [address.sync, address.async] := by
          rw [Config.endpoints, List.flatMap_map]
      _ = (ring.topology.nodes.map (·.primary)).flatMap fun address => [address.sync, address.async] := by
          rw [primaries]
      _ = _ := by rw [List.flatMap_map]
  exact same ▸ ring.apart

theorem seat_unique {first second : ring.Seat} {endpoint : Endpoint}
    (left : endpoint = (ring.address first).sync ∨ endpoint = (ring.address first).async)
    (right : endpoint = (ring.address second).sync ∨ endpoint = (ring.address second).async) :
    first = second := by
  have disjoint := List.pairwise_iff_getElem.mp (List.nodup_flatMap.mp ring.endpoints_apart).2
  have ordered (low high : ring.Seat) (less : low < high)
      (inLow : endpoint = (ring.address low).sync ∨ endpoint = (ring.address low).async)
      (inHigh : endpoint = (ring.address high).sync ∨ endpoint = (ring.address high).async) : False :=
    disjoint low high low.isLt high.isLt less (List.mem_pair.mpr inLow) (List.mem_pair.mpr inHigh)
  rcases Nat.lt_trichotomy first second with less | same | greater
  · exact (ordered first second less left right).elim
  · exact Fin.ext same
  · exact (ordered second first greater right left).elim

theorem sync_inj {first second : ring.Seat} (same : (ring.address first).sync = (ring.address second).sync) :
    first = second :=
  ring.seat_unique (Or.inl rfl) (Or.inl same)

theorem async_inj {first second : ring.Seat} (same : (ring.address first).async = (ring.address second).async) :
    first = second :=
  ring.seat_unique (Or.inr rfl) (Or.inr same)

theorem address_inj {first second : ring.Seat} (same : ring.address first = ring.address second) : first = second :=
  ring.sync_inj (congrArg Address.sync same)

theorem node_inj {first second : ring.Seat} (same : ring.node first = ring.node second) : first = second :=
  ring.address_inj (congrArg Node.primary same)

/-- Every holder of a shard is the machine of some seat. -/
theorem holder_seat {shard : ring.Seat} {address : Address} (holder : address ∈ (ring.node shard).holders) :
    ∃ seat : ring.Seat, ring.address seat = address := by
  rcases List.mem_cons.mp holder with rfl | replica
  · exact ⟨shard, rfl⟩
  · have owned : ring.node shard ∈ ring.topology.nodes := List.get_mem _ _
    obtain ⟨descriptor, member, rfl⟩ := Topology.build_replicas ring.built (ring.node shard) owned address replica
    have listed : descriptor.address ∈ ring.topology.nodes.map (·.primary) := by
      rw [Topology.build_primaries ring.built]
      exact List.mem_map_of_mem member
    obtain ⟨node, inside, same⟩ := List.mem_map.mp listed
    obtain ⟨seat, rfl⟩ := List.get_of_mem inside
    exact ⟨seat, same⟩

/-- The reverse lookup leads from a seat's endpoint to its shard. -/
theorem nodeAt_sync (seat : ring.Seat) :
    ring.topology.nodeAt (ring.address seat).sync = some (ring.node seat) := by
  unfold Topology.nodeAt findNode
  rw [List.find?_eq_some_iff_getElem]
  refine ⟨by simp [Node.answersAt, address], seat, seat.isLt, rfl, ?_⟩
  intro index before
  have different : ¬ (⟨index, Nat.lt_trans before seat.isLt⟩ : ring.Seat) = seat := Fin.ne_of_lt before
  have silent : ¬ (ring.node ⟨index, Nat.lt_trans before seat.isLt⟩).answersAt (ring.address seat).sync = true := by
    intro answers
    simp only [Node.answersAt, Bool.or_eq_true, decide_eq_true_eq] at answers
    exact different (ring.seat_unique (answers.imp Eq.symm Eq.symm) (Or.inl rfl))
  change (!(ring.node ⟨index, Nat.lt_trans before seat.isLt⟩).answersAt (ring.address seat).sync) = true
  simpa using silent

end Ring
end ReplicaRing
