import ReplicaRing.Proofs.Minting

/-! No write is lost on its way. Until a holder has stored a write that a client was told of, or
has retired it, a copy waits in the mail for that holder. -/

namespace ReplicaRing

def CopyWaits (mailbox : List Letter) (target : Endpoint) (key : String) (version : Version) : Prop :=
  ∃ letter ∈ mailbox, letter.target = target ∧
    ∃ copy ∈ letter.message.written, copy.key = key ∧ copy.assigned = some version

namespace Ring

variable {ring : Ring} {scene : ring.Scene}

/-- Each write that may not be refused and does not expire is known to each holder, or under way. -/
def Spread (ring : Ring) (scene : ring.Scene) : Prop :=
  ∀ write version, (write, version) ∈ mintedIn scene.deeds → write.optimistic = false → write.expiresAt = none →
    ∀ seat, ring.Holds seat (ring.shardOf write.key) →
      ((scene.holdings seat).entry write.key).Knows version ∨
        CopyWaits scene.mailbox (ring.address seat).async write.key version

section Move

variable {before after : ring.Scene} {write : Write} {version : Version}

private theorem lasting_stamped (traced : ring.Traced after) (numbered : ring.Numbered after)
    (minted : (write, version) ∈ mintedIn after.deeds) {deed : Deed} (noted : deed ∈ after.deeds) {other : Write}
    (member : (other, version) ∈ deed.before.stamped deed.now deed.message.written) :
    other.optimistic = write.optimistic ∧ other.expiresAt = write.expiresAt := by
  rw [← numbered.unique (traced.stamped noted member) minted]
  exact ⟨rfl, rfl⟩

private theorem taken_known (traced : ring.Traced after) (numbered : ring.Numbered after)
    (minted : (write, version) ∈ mintedIn after.deeds) (firm : write.optimistic = false)
    (lasting : write.expiresAt = none) {deed : Deed} (noted : deed ∈ after.deeds) {taken : Write}
    (member : (taken, version) ∈ deed.before.stamped deed.now deed.message.written) :
    (deed.after.entry taken.key).Knows version := by
  obtain ⟨same, lasts⟩ := lasting_stamped traced numbered minted noted member
  refine Holdings.take_makes_written (·.Knows version) member ?_ ?_
  · exact fun entry => Entry.write_makes_known (same.trans firm) (lasts.trans lasting)
  · intro other stamp entry inside _ known
    apply Entry.write_keeps_known known
    intro equal
    obtain rfl := equal
    exact (lasting_stamped traced numbered minted noted inside).2.trans lasting

private theorem Move.spread (move : ring.Move before after) (traced : ring.Traced after)
    (numbered : ring.Numbered after) (spread : ring.Spread before) : ring.Spread after := by
  intro write version minted firm lasting seat holds
  obtain ⟨deed, noted, own⟩ := List.mem_flatMap.mp minted
  rcases move.serves noted with old | peer | ⟨origin, shard, serves, held, changed, mail⟩
  · rcases spread write version (minted_mem old own) firm lasting seat holds with
      known | ⟨letter, waits, target, copy, inside, same, assigned⟩
    · refine Or.inl (move.keeps_entry (·.Knows version) ?_ ?_ known)
      · intro deed noted other stamp entry member _ known
        apply Entry.write_keeps_known known
        intro equal
        obtain rfl := equal
        exact (lasting_stamped traced numbered minted noted member).2.trans lasting
      · exact fun _ _ _ _ _ _ known => Entry.remove_keeps_known known
    · rcases move.delivers waits with still | ⟨other, now, inbox, changed, noted⟩
      · exact Or.inr ⟨letter, still, target, copy, inside, same, assigned⟩
      · cases ring.async_inj (inbox.symm.trans target)
        obtain ⟨stamp, member⟩ := Holdings.exists_stamped now (before.holdings seat) inside
        cases Holdings.stamped_assigned member assigned
        apply Or.inl
        rw [changed, ← same]
        exact taken_known traced numbered minted firm lasting noted member
  · exact absurd peer (Deed.client_of_minted own)
  · have owner : ring.shardOf write.key = shard :=
      serves.owned write.key (Message.key_written (Deed.written_of_minted own))
    by_cases here : seat = origin
    · subst here
      apply Or.inl
      rw [changed]
      exact taken_known traced numbered minted firm lasting noted (Deed.stamped_of_minted own)
    · have copied : { write with assigned := some version } ∈ deed.news.written := Deed.news_copies own firm
      have sent := serves.mail (owner ▸ holds) here (Message.told_of_written copied)
      exact Or.inr ⟨_, mail _ sent, rfl, _, copied, rfl, rfl⟩

end Move

theorem Played.spread (played : ring.Played scene) (identified : ring.Identified) (bounded : ring.Bounded scene.deeds) :
    ring.Spread scene := by
  induction played with
  | refl => exact fun _ _ minted => by cases minted
  | tail earlier move ih =>
    obtain ⟨_, grown⟩ := move.grown
    have played := Relation.ReflTransGen.tail earlier move
    exact move.spread (Played.traced played) (Played.numbered played identified bounded)
      (ih (Bounded.of_append (grown ▸ bounded)))

/-- Every write that a client was told of is live at each holder of its shard, or retired there, or a
copy waits in the mail. Without mail it is live wherever nobody named its version. -/
theorem acknowledged_write_spreads (ring : Ring) (identified : ring.Identified) {chronicle : Chronicle}
    (reached : ring.Reached chronicle) (bounded : ring.Bounded chronicle.deeds) {turn : Turn}
    (taken : turn ∈ chronicle.turns) {write : Write} {version : Version} (granted : (write, version) ∈ turn.grants)
    (firm : write.optimistic = false) (lasting : write.expiresAt = none) {seat : ring.Seat}
    (holds : ring.Holds seat (ring.shardOf write.key)) :
    ∃ server, chronicle.cluster.servers[(seat : Nat)]? = some server ∧
      ((server.store.table.entry write.key).Live version ∨ (server.store.table.entry write.key).Retired version ∨
        CopyWaits chronicle.cluster.network.mailbox (ring.address seat).async write.key version) ∧
      (chronicle.cluster.network.mailbox = [] → (∀ turn ∈ chronicle.turns, ¬ turn.Names write.key version) →
        (server.store.table.entry write.key).Live version) := by
  obtain ⟨server, found, _⟩ := reached.housed.seated seat
  have played := reached.played
  have minted := reached.granted_minted taken granted
  have held := entry_seated found
  have known := played.spread identified bounded write version minted firm lasting seat holds
  refine ⟨server, found, ?_, ?_⟩
  · rw [← held, ← or_assoc]
    exact known.imp Entry.Knows.live_or_retired id
  · intro idle unnamed
    rcases known with known | ⟨letter, waits, _⟩
    · rcases known.live_or_retired with live | retired
      · rw [← held]
        exact live
      · obtain ⟨deed, noted, ⟨_, _, serves⟩, names⟩ := played.retired_named retired
        obtain ⟨turn, named, same⟩ := reached.names_turn noted (serves.client) names
        exact absurd same (unnamed turn named)
    · exact absurd (show letter ∈ chronicle.cluster.network.mailbox from waits) (by simp [idle])

/-- A write that the second machine takes in for the first one, and that waits for the first one to come back. -/
def standingIn : Chronicle :=
  .play .trio
    [(0, .down { sync := ⟨"tcp://a"⟩, async := ⟨"queue://a"⟩ }),
     (0, .write [.lasting "k3" [1] []]),
     (0, .deliver)]

theorem standingIn_spreads :
    ∃ server, standingIn.cluster.servers[0]? = some server ∧
      ((server.store.table.entry "k3").Live { store := .ofName "b", number := 1 } ∨
        (server.store.table.entry "k3").Retired { store := .ofName "b", number := 1 } ∨
        CopyWaits standingIn.cluster.network.mailbox ⟨"queue://a"⟩ "k3" { store := .ofName "b", number := 1 }) ∧
      (standingIn.cluster.network.mailbox = [] →
        (∀ turn ∈ standingIn.turns, ¬ turn.Names "k3" { store := .ofName "b", number := 1 }) →
        (server.store.table.entry "k3").Live { store := .ofName "b", number := 1 }) := by
  have told : ∃ turn ∈ standingIn.turns,
      (Write.lasting "k3" [1] [], ({ store := .ofName "b", number := 1 } : Version)) ∈ turn.grants := by decide +kernel
  obtain ⟨turn, taken, granted⟩ := told
  have holds : Ring.trio.Holds ⟨0, by decide⟩ (Ring.trio.shardOf "k3") := ⟨rfl, by decide +kernel⟩
  have bounded : Ring.trio.Bounded standingIn.deeds := by decide +kernel
  have reached : Ring.trio.Reached standingIn := .play .trio _
  have spread := acknowledged_write_spreads .trio trio_identified reached bounded taken granted rfl rfl holds
  exact spread

end Ring
end ReplicaRing
