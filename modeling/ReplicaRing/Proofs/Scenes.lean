import Mathlib.Logic.Relation
import ReplicaRing.Proofs.Chronicles
import ReplicaRing.Proofs.Dispatching

/-! A run of a ring seen as moves of two kinds: a holder takes a client's batch and mails it to
the other holders, or a holder takes in a letter. Every step of a cluster comes down to such
moves, since the servers stay in their seats and no letter is ever lost. -/

namespace ReplicaRing
namespace Ring

/-- What the servers hold, the mail on its way, and the batches noted down. -/
structure Scene (ring : Ring) where
  holdings : ring.Seat → Holdings
  mailbox : List Letter
  deeds : List Deed

def deed (ring : Ring) (seat : ring.Seat) (origin : Origin) (now : UInt64) (before : Holdings) (message : Message) :
    Deed where
  here := ring.address seat
  origin := origin
  now := now
  before := before
  message := message

namespace Scene

variable {ring : Ring}

def opening (ring : Ring) : ring.Scene where
  holdings seat := .fresh (ring.setup.identity (ring.node seat))
  mailbox := []
  deeds := []

/-- The server at a seat takes a client's batch that is meant for some shard. -/
def serve (scene : ring.Scene) (seat shard : ring.Seat) (now : UInt64) (message : Message) : ring.Scene where
  holdings := Function.update scene.holdings seat ((scene.holdings seat).take now message)
  mailbox := scene.mailbox ++ ring.mail seat shard ((scene.holdings seat).news now message)
  deeds := scene.deeds ++ [ring.deed seat (.client (ring.node shard)) now (scene.holdings seat) message]

/-- The server at a seat takes in a letter, which leaves some other mail. -/
def receive (scene : ring.Scene) (seat : ring.Seat) (now : UInt64) (message : Message) (left : List Letter) :
    ring.Scene where
  holdings := Function.update scene.holdings seat ((scene.holdings seat).take now message)
  mailbox := left
  deeds := scene.deeds ++ [ring.deed seat .peer now (scene.holdings seat) message]

def after (scene : ring.Scene) (earlier : List Deed) : ring.Scene :=
  { scene with deeds := earlier ++ scene.deeds }

theorem serve_after (scene : ring.Scene) (earlier : List Deed) (seat shard : ring.Seat) (now : UInt64)
    (message : Message) : (scene.serve seat shard now message).after earlier =
      (scene.after earlier).serve seat shard now message := by
  simp [after, serve]

theorem receive_after (scene : ring.Scene) (earlier : List Deed) (seat : ring.Seat) (now : UInt64)
    (message : Message) (left : List Letter) : (scene.receive seat now message left).after earlier =
      (scene.after earlier).receive seat now message left := by
  simp [after, receive]

end Scene

/-- A client's batch reaches a holder of its shard, or the oldest letter to a machine is taken in. -/
inductive Move (ring : Ring) : ring.Scene → ring.Scene → Prop where
  | served {scene : ring.Scene} {seat shard : ring.Seat} {message : Message} (now : UInt64)
      (holds : ring.Holds seat shard) (sound : message.Sound) (unassigned : message.Unassigned)
      (owned : ∀ key ∈ message.keys, ring.shardOf key = shard) :
      Move ring scene (scene.serve seat shard now message)
  | received {scene : ring.Scene} {seat : ring.Seat} {message : Message} {earlier later : List Letter} (now : UInt64)
      (mail : scene.mailbox = earlier ++ { target := (ring.address seat).async, message } :: later)
      (oldest : ∀ letter ∈ earlier, letter.target ≠ (ring.address seat).async) (sound : message.Sound) :
      Move ring scene (scene.receive seat now message (earlier ++ later))

abbrev Moves (ring : Ring) : ring.Scene → ring.Scene → Prop :=
  Relation.ReflTransGen ring.Move

def Played (ring : Ring) (scene : ring.Scene) : Prop :=
  ring.Moves (.opening ring) scene

theorem moves_after {ring : Ring} {first last : ring.Scene} (moves : ring.Moves first last)
    (earlier : List Deed) : ring.Moves (first.after earlier) (last.after earlier) := by
  induction moves with
  | refl => exact .refl
  | tail _ move ih =>
    apply ih.tail
    cases move with
    | served now holds sound unassigned owned =>
      rw [Scene.serve_after]
      exact .served now holds sound unassigned owned
    | received now mail oldest sound =>
      rw [Scene.receive_after]
      exact .received now mail oldest sound

def holdings (ring : Ring) (cluster : Cluster) (seat : ring.Seat) : Holdings :=
  ((cluster.servers[(seat : Nat)]?).map Server.holdings).getD (.fresh (ring.setup.identity (ring.node seat)))

def view (ring : Ring) (cluster : Cluster) (mailbox : List Letter) (deeds : List Deed) : ring.Scene where
  holdings := ring.holdings cluster
  mailbox := mailbox
  deeds := deeds

/-- Every server is in its seat, those that are registered can be reached, and the mail on its way
is for them and will not be turned away. -/
structure Housed (ring : Ring) (cluster : Cluster) : Prop where
  seated : ∀ seat : ring.Seat, ∃ server, cluster.servers[(seat : Nat)]? = some server ∧ server.here = ring.address seat
  roster : ∀ registration, registration ∈ cluster.network.roster ↔
    ∃ seat, ring.Registered seat ∧ registration = { address := ring.address seat, seat := (seat : Nat) }
  mail : ∀ letter ∈ cluster.network.mailbox, letter.message.Sound ∧
    ∃ seat, ring.Registered seat ∧ letter.target = (ring.address seat).async

namespace Housed

variable {ring : Ring} {cluster : Cluster}

private theorem find_roster (housed : ring.Housed cluster) {place : Address → Endpoint}
    (unique : ∀ first second : ring.Seat, place (ring.address first) = place (ring.address second) → first = second)
    {endpoint : Endpoint} {number : Nat} :
    (cluster.network.roster.find? (place ·.address = endpoint)).map (·.seat) = some number ↔
      ∃ seat : ring.Seat, ring.Registered seat ∧ place (ring.address seat) = endpoint ∧ number = seat := by
  constructor
  · intro found
    obtain ⟨registration, search, rfl⟩ := Option.map_eq_some_iff.mp found
    obtain ⟨seat, registered, rfl⟩ := (housed.roster registration).mp (List.mem_of_find?_eq_some search)
    exact ⟨seat, registered, by simpa using List.find?_some search, rfl⟩
  · intro listed
    obtain ⟨seat, registered, same, rfl⟩ := listed
    have listed := (housed.roster _).mpr ⟨seat, registered, rfl⟩
    cases search : cluster.network.roster.find? (place ·.address = endpoint) with
    | none => simpa [same] using List.find?_eq_none.mp search _ listed
    | some registration =>
      obtain ⟨other, _, rfl⟩ := (housed.roster registration).mp (List.mem_of_find?_eq_some search)
      have equal : place (ring.address other) = endpoint := by simpa using List.find?_some search
      rw [unique other seat (equal.trans same.symm)]
      rfl

theorem callee_iff (housed : ring.Housed cluster) {endpoint : Endpoint} {number : Nat} :
    cluster.network.callee endpoint = some number ↔
      ∃ seat : ring.Seat, ring.Registered seat ∧ (ring.address seat).sync = endpoint ∧ number = seat :=
  housed.find_roster fun _ _ => ring.sync_inj

theorem addressee_iff (housed : ring.Housed cluster) {endpoint : Endpoint} {number : Nat} :
    cluster.network.addressee endpoint = some number ↔
      ∃ seat : ring.Seat, ring.Registered seat ∧ (ring.address seat).async = endpoint ∧ number = seat :=
  housed.find_roster fun _ _ => ring.async_inj

theorem addressee_isSome (housed : ring.Housed cluster) (endpoint : Endpoint) :
    (cluster.network.addressee endpoint).isSome = ring.takesMail endpoint := by
  rw [Bool.eq_iff_iff, ring.takesMail_iff, Option.isSome_iff_exists]
  constructor
  · intro taken
    obtain ⟨number, found⟩ := taken
    obtain ⟨seat, registered, same, _⟩ := housed.addressee_iff.mp found
    exact ⟨seat, registered, same⟩
  · intro taken
    obtain ⟨seat, registered, same⟩ := taken
    exact ⟨seat, housed.addressee_iff.mpr ⟨seat, registered, same, rfl⟩⟩

end Housed

/-- The mail that somebody takes goes behind the mail that waits. -/
theorem handAll_post (letters : List Letter) (network : Network) :
    Network.post.handAll letters network =
      { network with
        mailbox := network.mailbox ++ letters.filter fun letter => (network.addressee letter.target).isSome } := by
  induction letters generalizing network with
  | nil => simp [Post.handAll]
  | cons letter letters ih =>
    rw [Post.handAll, ih]
    cases taken : (network.addressee letter.target).isSome with
    | false => simp [Network.post, taken]
    | true =>
      have same (endpoint : Endpoint) (mailbox : List Letter) :
          Network.addressee { network with mailbox } endpoint = network.addressee endpoint := rfl
      simp [Network.post, taken, same]

section Settle

variable {ring : Ring} {cluster : Cluster} {seat : ring.Seat} {server : Server} {α : Type} {outcome : Outcome α}

theorem settle_mailbox (housed : ring.Housed cluster) :
    (cluster.settle seat outcome).network.mailbox =
      cluster.network.mailbox ++ outcome.mail.filter fun letter => ring.takesMail letter.target := by
  simp only [Cluster.settle, handAll_post, housed.addressee_isSome]

theorem settle_holdings (housed : ring.Housed cluster) :
    ring.holdings (cluster.settle seat outcome) =
      Function.update (ring.holdings cluster) seat outcome.server.holdings := by
  obtain ⟨server, found, _⟩ := housed.seated seat
  have inside := (List.getElem?_eq_some_iff.mp found).1
  funext other
  by_cases same : other = seat
  · subst same
    simp [holdings, Cluster.settle, inside]
  · have different : ¬ (seat : Nat) = other := fun equal => same (Fin.ext equal.symm)
    simp [holdings, Cluster.settle, Function.update_of_ne same, List.getElem?_set_ne different]

theorem settle_housed (housed : ring.Housed cluster) (stays : outcome.server.here = ring.address seat)
    (sound : ∀ letter ∈ outcome.mail, letter.message.Sound) : ring.Housed (cluster.settle seat outcome) where
  seated other := by
    obtain ⟨server, found, placed⟩ := housed.seated other
    by_cases same : other = seat
    · subst same
      have inside := (List.getElem?_eq_some_iff.mp found).1
      exact ⟨outcome.server, by simp [Cluster.settle, inside], stays⟩
    · have different : ¬ (seat : Nat) = other := fun equal => same (Fin.ext equal.symm)
      exact ⟨server, by simpa [Cluster.settle, List.getElem?_set_ne different] using found, placed⟩
  roster := by
    simp only [Cluster.settle, handAll_post]
    exact housed.roster
  mail letter member := by
    rw [settle_mailbox housed] at member
    rcases List.mem_append.mp member with old | new
    · exact housed.mail letter old
    · obtain ⟨sent, taken⟩ := List.mem_filter.mp new
      obtain ⟨other, registered, same⟩ := ring.takesMail_iff.mp taken
      exact ⟨sound letter sent, other, registered, same.symm⟩

end Settle
end Ring

end ReplicaRing
