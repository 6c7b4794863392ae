import ReplicaRing.Command.Demo
import ReplicaRing.Proofs.Delivering
import ReplicaRing.Proofs.Executing
import ReplicaRing.Proofs.Rereading

/-! A trial of a ring, stage by stage. While all machines are up, every call reaches its server: the ring can be
asked for, a write goes to the owner of its key, and what is read is what a machine holds. One delivery then hands
every letter over, so the other holders have the data at the first look. -/

namespace ReplicaRing

theorem Cluster.start_up {topology : Topology} {setup : Setup} {cluster : Cluster}
    (started : start topology setup = .ok cluster) :
    cluster.network.down = [] ∧ cluster.network.hung = [] ∧ ∀ server ∈ cluster.servers, server.topology = topology := by
  refine startAll_keeps
    (fun cluster => cluster.network.down = [] ∧ cluster.network.hung = [] ∧
      ∀ server ∈ cluster.servers, server.topology = topology)
    ?_ started ⟨rfl, rfl, fun _ member => by cases member⟩
  intro node _ earlier server own before
  obtain ⟨up, awake, known⟩ := before
  have new : server.topology = topology := by
    obtain ⟨_, _, rfl⟩ := Server.start_ok.mp own
    rfl
  have all : ∀ other ∈ earlier.servers ++ [server], other.topology = topology :=
    List.forall_mem_append.mpr ⟨known, List.forall_mem_singleton.mpr new⟩
  exact ⟨⟨up, awake, all⟩, up, awake, all⟩

namespace Client

variable {ρ α : Type} {operation : Operation ρ α} {check : Node → ρ → Except Refusal Unit} {cluster : Cluster}

end Client

namespace Ring

variable {ring : Ring} {cluster : Cluster}

/-- Every machine of a ring is up and within reach. -/
structure Upright (ring : Ring) (cluster : Cluster) : Prop where
  housed : ring.Housed cluster
  registered : ∀ seat, ring.Registered seat
  up : cluster.network.down = []
  awake : cluster.network.hung = []

theorem start_upright (all : ∀ seat, ring.Registered seat)
    (started : Cluster.start ring.topology ring.setup = .ok cluster) : ring.Upright cluster := by
  obtain ⟨up, awake, _⟩ := Cluster.start_up started
  exact ⟨(start_housed started).1, all, up, awake⟩

namespace Upright

variable (upright : ring.Upright cluster) (now : UInt64)

include upright

theorem seated : cluster.Seated := by
  intro registration member
  obtain ⟨seat, _, rfl⟩ := (upright.housed.roster registration).mp member
  obtain ⟨server, found, _⟩ := upright.housed.seated seat
  exact (List.getElem?_eq_some_iff.mp found).1

theorem answers (seat : ring.Seat) : cluster.network.Answers (ring.address seat).sync := by
  refine ⟨⟨_, (upright.housed.roster _).mpr ⟨seat, upright.registered seat, rfl⟩, rfl⟩, ?_, ?_⟩
  · simp [upright.up]
  · simp [upright.awake]

theorem settle {seat : ring.Seat} {α : Type} {outcome : Outcome α} (stays : outcome.server.here = ring.address seat)
    (sound : ∀ letter ∈ outcome.mail, letter.message.Sound) : ring.Upright (cluster.settle seat outcome) where
  housed := settle_housed upright.housed stays sound
  registered := upright.registered
  up := by
    rw [Cluster.settle, handAll_post]
    exact upright.up
  awake := by
    rw [Cluster.settle, handAll_post]
    exact upright.awake

theorem call (seat : ring.Seat) (asked : Call) :
    ∃ server, cluster.servers[(seat : Nat)]? = some server ∧ server.here = ring.address seat ∧
      Cluster.call now (ring.address seat).sync asked cluster =
        (.ok (server.answer .never now asked).answer, cluster.settle seat (server.answer .never now asked)) := by
  obtain ⟨server, found, placed⟩ := upright.housed.seated seat
  have called := upright.housed.callee_iff.mpr ⟨seat, upright.registered seat, rfl, rfl⟩
  have reached : cluster.network.reach (ring.address seat).sync = .ok (seat : Nat) := by
    simp [Network.reach, upright.up, upright.awake, called]
  exact ⟨server, found, placed, by simp only [Cluster.call, reached, found]⟩

end Upright

/-- The first machine of a new ring tells a client about all of it. -/
theorem connect_started (all : ∀ seat, ring.Registered seat)
    (started : Cluster.start ring.topology ring.setup = .ok cluster) (now : UInt64) :
    Client.connect (Cluster.call now) ring.topology.first ring.partitioner cluster = (.ok ring.client, cluster) := by
  have first : ring.topology.first = ring.node ⟨0, ring.topology.positive⟩ := List.head_eq_getElem _
  obtain ⟨server, found, _, called⟩ := (start_upright all started).call now ⟨0, ring.topology.positive⟩ .nodes
  obtain ⟨_, _, known⟩ := Cluster.start_up started
  have told : server.topology = ring.topology := known server (List.mem_of_getElem? found)
  have answered : Failover.expect (Cluster.call now) "get_network_nodes" Client.listed .nodes
      (ring.node ⟨0, ring.topology.positive⟩).primary.sync cluster = (.ok ring.topology.nodes, cluster) := by
    have idle := Cluster.settle_idle found (Answer.nodes server.topology.nodes)
    rw [Failover.expect, Failover.ask, ← address, called, Server.answer, idle, told]
    rfl
  have asked : Failover.run (Failover.expect (Cluster.call now) "get_network_nodes" Client.listed .nodes)
      ring.topology.first cluster = (.ok ring.topology.nodes, cluster) := by
    rw [first, Failover.run, Node.chain, Node.holders, List.map_cons, Failover.attempt, answered]
  simp only [Client.connect, asked, Client.ofNodes, Topology.ofNodes?, dif_pos ring.topology.populated]
  rfl

theorem Upright.readAt (upright : ring.Upright cluster) (now : UInt64) (seat : ring.Seat) (key : String) :
    Demo.readAt now (ring.address seat).sync key cluster =
      (.ok (((ring.holdings cluster seat).entry key).read none now), cluster) := by
  obtain ⟨server, found, _, called⟩ := upright.call now seat (.read [{ key, version := none }])
  have shape := server.read_idle now [{ key, version := none }]
  have idle : cluster.settle seat (server.answer .never now (.read [{ key, version := none }])) = cluster := by
    rw [Server.answer, shape]
    exact Cluster.settle_idle found _
  rw [Demo.readAt, called, idle, Server.answer, shape, holdings_seated found]
  rfl

namespace Upright

variable (upright : ring.Upright cluster) (now : UInt64) {write : Write}

include upright

end Upright

namespace Upright

private theorem deliverWithin_all (now : UInt64) {letters : List Letter} (upright : ring.Upright cluster)
    (mail : cluster.network.mailbox = letters) :
    ring.Upright (Cluster.deliverWithin now letters.length cluster).2 ∧
      (Cluster.deliverWithin now letters.length cluster).2.network.mailbox = [] ∧
      ∀ seat, ring.holdings (Cluster.deliverWithin now letters.length cluster).2 seat =
        (lettersTo (ring.address seat).async letters).foldl (fun held letter => held.take now letter.message)
          (ring.holdings cluster seat) := by
  -- Nobody is down, so no letter is put behind the others and each is taken in at its turn.
  induction letters generalizing cluster with
  | nil => exact ⟨upright, mail, fun _ => rfl⟩
  | cons letter letters ih =>
    have here : cluster.network.down.contains letter.target = false := by simp [upright.up]
    obtain ⟨sound, reader, registered, target⟩ := upright.housed.mail letter (mail ▸ List.mem_cons_self)
    have opened : ring.Housed { cluster with network := { cluster.network with mailbox := letters } } :=
      upright.housed.with_mailbox fun other member => mail ▸ List.mem_cons_of_mem _ member
    obtain ⟨next, applied, housed, network, held, _⟩ := opened.apply_letter now registered target sound
    have still : ring.Upright next :=
      ⟨housed, upright.registered, by rw [network]; exact upright.up, by rw [network]; exact upright.awake⟩
    obtain ⟨final, empty, all⟩ := ih still (by rw [network])
    simp only [List.length_cons, Cluster.deliverWithin, mail, here, Bool.false_eq_true, if_false, applied]
    refine ⟨final, empty, fun seat => ?_⟩
    have before : ring.holdings next = Function.update (ring.holdings cluster) reader
        ((ring.holdings cluster reader).take now letter.message) := held
    rw [all seat, before]
    by_cases own : seat = reader
    · subst own
      have first : lettersTo (ring.address seat).async (letter :: letters) =
          letter :: lettersTo (ring.address seat).async letters :=
        List.filter_cons_of_pos (decide_eq_true target)
      rw [first, List.foldl_cons, Function.update_self]
    · have other : lettersTo (ring.address seat).async (letter :: letters) =
          lettersTo (ring.address seat).async letters := by
        refine List.filter_cons_of_neg fun same => own (ring.async_inj ?_)
        exact (of_decide_eq_true same).symm.trans target
      rw [other, Function.update_of_ne own]

/-- Every machine takes in the letters that wait for it, one after the other, and no letter is left. -/
theorem deliver (upright : ring.Upright cluster) (now : UInt64) :
    ring.Upright (cluster.deliver now).2 ∧ (cluster.deliver now).2.network.mailbox = [] ∧
      ∀ seat, ring.holdings (cluster.deliver now).2 seat =
        (lettersTo (ring.address seat).async cluster.network.mailbox).foldl
          (fun held letter => held.take now letter.message) (ring.holdings cluster seat) :=
  upright.deliverWithin_all now rfl

end Upright

end Ring

namespace Holdings

variable (now : UInt64) (id : StoreId) (write : Write)

end Holdings

namespace Demo

variable {now : UInt64} {key : String} {data : Bytes} {endpoint : Endpoint} {cluster : Cluster}

section Stages

variable {topology : Topology} {started ready written last : Cluster} {client : Client} {attempts : Nat}

end Stages

end Demo

namespace Ring

variable {ring : Ring} {cluster : Cluster}

end Ring

namespace Demo

section Runs

variable {config : Config} {topology : Topology} (built : Topology.build config = .ok topology)
  (apart : config.endpoints.Nodup) (now : UInt64) (key : String) (data : Bytes)

def ring : Ring where
  config := config
  topology := topology
  built := built
  apart := apart
  partitioner := .xxh3
  setup := .standard

private theorem begins : ∃ started, Cluster.start topology .standard = .ok started ∧
    (ring built apart).Upright started ∧
    Client.connect (Cluster.call now) topology.first .xxh3 started = (.ok ⟨topology, .xxh3⟩, started) := by
  obtain ⟨started, begun⟩ := (ring built apart).exists_start
  have all (seat : (ring built apart).Seat) : (ring built apart).Registered seat := rfl
  exact ⟨started, begun, Ring.start_upright all begun, Ring.connect_started all begun now⟩

include built apart

end Runs

end Demo

end ReplicaRing
