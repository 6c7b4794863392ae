import ReplicaRing.Proofs.Lineage
import ReplicaRing.Proofs.Tracing

/-! Where keys are. A batch of a client goes to a holder of the shard that its keys are in, and only the other holders
of that shard are written to about it. So no key ever turns up anywhere else, be it in a store or in the mail. -/

namespace ReplicaRing
namespace Ring

variable {ring : Ring} {scene : ring.Scene} {seat : ring.Seat} {key : String}

theorem Serves.holds_key {deed : Deed} {shard : ring.Seat} (serves : ring.Serves deed seat shard)
    (named : key ∈ deed.message.keys) : ring.Holds seat (ring.shardOf key) := by
  rw [serves.owned key named]
  exact serves.holds

theorem Tells.holds_key {source : Deed} {message : Message} (tells : ring.Tells source seat message)
    (named : key ∈ message.keys) : ring.Holds seat (ring.shardOf key) := by
  obtain ⟨origin, shard, serves, holds, _⟩ := tells.served
  rw [tells.news] at named
  rw [serves.owned key (source.news_keys named)]
  exact holds

theorem Traced.holds_key (traced : ring.Traced scene) {deed : Deed} (noted : deed ∈ scene.deeds)
    (here : deed.here = ring.address seat) (named : key ∈ deed.message.keys) : ring.Holds seat (ring.shardOf key) := by
  rcases traced.deeds deed noted with ⟨own, shard, serves⟩ | ⟨_, own, placed, source, _, tells⟩
  · obtain rfl : own = seat := ring.address_inj (serves.here.symm.trans here)
    exact serves.holds_key named
  · obtain rfl : own = seat := ring.address_inj (placed.symm.trans here)
    exact tells.holds_key named

theorem Played.holds_key (played : ring.Played scene) (known : (scene.holdings seat).entry key ≠ .vacant) :
    ring.Holds seat (ring.shardOf key) := by
  induction played with
  | refl => exact absurd rfl known
  | tail earlier move ih =>
    obtain ⟨own, deed, here, held, changed, grown⟩ := move.taken
    rw [changed] at known
    by_cases same : seat = own
    · subst same
      rw [Function.update_self] at known
      by_cases named : key ∈ deed.message.keys
      · have traced := Played.traced (earlier.tail move)
        exact traced.holds_key (grown ▸ List.mem_append_right _ (List.mem_singleton.mpr rfl)) here named
      · rw [Deed.after, Holdings.take_other named, held] at known
        exact ih known
    · rw [Function.update_of_ne same] at known
      exact ih known

/-- In every run each machine has one server. It keeps only keys of shards that the machine holds, first, second or
third, and all mail that waits is for machines that hold the shard of each key in it. -/
theorem keys_stay_with_holders (ring : Ring) {chronicle : Chronicle} (reached : ring.Reached chronicle) :
    chronicle.cluster.servers.map Server.here = ring.topology.nodes.map (·.primary) ∧
      (∀ server ∈ chronicle.cluster.servers, ∀ key ∈ server.store.table,
        server.here ∈ (ring.node (ring.shardOf key)).holders) ∧
      ∀ letter ∈ chronicle.cluster.network.mailbox, ∀ key ∈ letter.message.keys,
        ∃ holder ∈ (ring.node (ring.shardOf key)).holders, holder.async = letter.target := by
  have counted : ring.topology.count = chronicle.cluster.servers.length := reached.ran.descended.length_eq
  have placed (seat : ring.Seat) (server : Server) (found : chronicle.cluster.servers[(seat : Nat)]? = some server) :
      server.here = ring.address seat := by
    obtain ⟨other, same, here⟩ := reached.housed.seated seat
    cases found.symm.trans same
    exact here
  refine ⟨?_, ?_, ?_⟩
  · apply List.ext_getElem
    · simp only [List.length_map]
      exact counted.symm
    · intro seat seated listed
      rw [List.length_map] at seated listed
      rw [List.getElem_map, List.getElem_map]
      exact placed ⟨seat, listed⟩ _ (List.getElem?_eq_getElem seated)
  · intro server seated key stored
    obtain ⟨number, inside, rfl⟩ := List.getElem_of_mem seated
    have found := List.getElem?_eq_getElem inside
    have own := placed ⟨number, counted ▸ inside⟩ _ found
    obtain ⟨entry, kept⟩ := Option.isSome_iff_exists.mp (Std.ExtTreeMap.isSome_getElem?_iff_mem.mpr stored)
    have told := (reached.ran.stores_coherent seated).1 key entry kept
    have known : ((chronicle.scene ring).holdings ⟨number, counted ▸ inside⟩).entry key ≠ .vacant := by
      intro vacant
      have same : entry = .vacant := by
        rw [← Table.entry_of_found kept, ← vacant]
        exact (congrFun (entry_seated found) key).symm
      rw [same] at told
      cases told
    rw [own]
    exact (reached.played.holds_key known).holder
  · intro letter waits key named
    obtain ⟨seat, target, source, _, tells⟩ := reached.played.traced.mail letter waits
    exact ⟨ring.address seat, (tells.holds_key named).holder, target.symm⟩

/-- Four machines that do not go round in a circle: the first two keep copies for one another, the third one keeps
copies for them but has none of its own, and the last one has its copy on the first. -/
private def village : Ring where
  config :=
    { nodes :=
        [ { name := "a", address := ⟨⟨"tcp://a"⟩, ⟨"queue://a"⟩⟩, secondary := some "b", tertiary := some "c" },
          { name := "b", address := ⟨⟨"tcp://b"⟩, ⟨"queue://b"⟩⟩, secondary := some "a", tertiary := some "c" },
          { name := "c", address := ⟨⟨"tcp://c"⟩, ⟨"queue://c"⟩⟩, secondary := none, tertiary := none },
          { name := "d", address := ⟨⟨"tcp://d"⟩, ⟨"queue://d"⟩⟩, secondary := some "a", tertiary := none } ] }
  topology :=
    { nodes :=
        [ { name := "a", primary := ⟨⟨"tcp://a"⟩, ⟨"queue://a"⟩⟩, secondary := some ⟨⟨"tcp://b"⟩, ⟨"queue://b"⟩⟩
            tertiary := some ⟨⟨"tcp://c"⟩, ⟨"queue://c"⟩⟩ },
          { name := "b", primary := ⟨⟨"tcp://b"⟩, ⟨"queue://b"⟩⟩, secondary := some ⟨⟨"tcp://a"⟩, ⟨"queue://a"⟩⟩
            tertiary := some ⟨⟨"tcp://c"⟩, ⟨"queue://c"⟩⟩ },
          { name := "c", primary := ⟨⟨"tcp://c"⟩, ⟨"queue://c"⟩⟩, secondary := none, tertiary := none },
          { name := "d", primary := ⟨⟨"tcp://d"⟩, ⟨"queue://d"⟩⟩, secondary := some ⟨⟨"tcp://a"⟩, ⟨"queue://a"⟩⟩
            tertiary := none } ]
      populated := by simp }
  built := by rfl
  apart := by decide
  partitioner := .xxh3
  setup := .standard

private def settled : Chronicle :=
  .play village
    [(1, .write [.lasting "k6" [1] [], .lasting "k1" [2] [], .lasting "k3" [3] [], .lasting "k0" [4] []]),
     (2, .down { sync := ⟨"tcp://d"⟩, async := ⟨"queue://d"⟩ }),
     (3, .write [.lasting "k0" [5] [{ store := .ofName "d", number := 1 }]]),
     (4, .deliver),
     (5, .remove [{ key := "k1", parents := some [{ store := .ofName "b", number := 1 }] }])]

theorem settled_stay_with_holders :
    settled.cluster.servers.map (·.store.table.keys) = [["k0", "k1", "k6"], ["k1", "k6"], ["k1", "k3", "k6"], ["k0"]] ∧
      settled.cluster.network.mailbox.map (fun letter => (letter.target, letter.message.keys)) =
        [(⟨"queue://d"⟩, ["k0"]), (⟨"queue://a"⟩, ["k1"]), (⟨"queue://c"⟩, ["k1"])] ∧
      (∀ server ∈ settled.cluster.servers, ∀ key ∈ server.store.table,
        server.here ∈ (village.node (village.shardOf key)).holders) ∧
      ∀ letter ∈ settled.cluster.network.mailbox, ∀ key ∈ letter.message.keys,
        ∃ holder ∈ (village.node (village.shardOf key)).holders, holder.async = letter.target := by
  have reached : village.Reached settled := .play village _
  obtain ⟨_, kept, sent⟩ := keys_stay_with_holders village reached
  exact ⟨by decide +kernel, by decide +kernel, kept, sent⟩

end Ring
end ReplicaRing
