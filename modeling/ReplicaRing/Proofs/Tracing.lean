import Mathlib.Algebra.Group.Nat.Defs
import ReplicaRing.Proofs.Playing

/-! Where batches and letters come from. Each letter tells of one batch that a client sent to
another holder, and each copy is a client's write under the version that was minted for it. -/

namespace ReplicaRing

/-- What is sent on of a batch are the writes that were given a version. -/
theorem Server.mem_copies {writes : List Write} {results : List Written} {copy : Write}
    (member : copy ∈ copies writes results) : ∃ write result version, (write, result) ∈ writes.zip results ∧
      result.version = some version ∧ copy = { write with assigned := some version } := by
  induction writes generalizing results with
  | nil => cases member
  | cons first writes ih =>
    cases results with
    | nil => cases member
    | cons result results =>
      have later (inside : copy ∈ copies writes results) :
          ∃ write other version, (write, other) ∈ (first :: writes).zip (result :: results) ∧
            other.version = some version ∧ copy = { write with assigned := some version } := by
        obtain ⟨write, other, version, paired, rest⟩ := ih inside
        exact ⟨write, other, version, List.mem_cons_of_mem _ paired, rest⟩
      simp only [copies] at member
      cases accepted : result.version with
      | none =>
        rw [accepted] at member
        exact later member
      | some version =>
        rw [accepted] at member
        rcases List.mem_cons.mp member with rfl | inside
        · exact ⟨first, result, version, List.mem_cons_self, accepted, rfl⟩
        · exact later inside

namespace Holdings

variable {now : UInt64} {held : Holdings} {writes : List Write}

theorem length_stamped : (held.stamped now writes).length = writes.length := by
  induction writes generalizing held with
  | nil => rfl
  | cons write writes ih => simp [stamped, ih]

/-- Writes that come without a version get the next numbers of the store. -/
theorem stamped_versions (unassigned : ∀ write ∈ writes, write.assigned = none) :
    (held.stamped now writes).map (·.2) =
      (List.range writes.length).map fun index => { store := held.id, number := held.next + UInt64.ofNat index } := by
  induction writes generalizing held with
  | nil => rfl
  | cons write writes ih =>
    have own := unassigned write List.mem_cons_self
    rw [stamped, List.map_cons, ih fun other member => unassigned other (List.mem_cons_of_mem _ member),
      List.length_cons, List.range_succ_eq_map, List.map_cons, List.map_map]
    congr 1
    · simp [stamp, own]
    · refine List.map_congr_left fun index _ => ?_
      simp only [enter, own, Option.isSome_none, Bool.false_eq_true, if_false, Function.comp_apply, Nat.succ_eq_add_one,
        Version.mk.injEq, true_and]
      rw [Nat.add_comm, UInt64.ofNat_add, UInt64.add_assoc]
      rfl

theorem enterAll_next (unassigned : ∀ write ∈ writes, write.assigned = none) :
    (held.enterAll now writes).next = held.next + UInt64.ofNat writes.length := by
  induction writes generalizing held with
  | nil => simp [enterAll]
  | cons write writes ih =>
    have own := unassigned write List.mem_cons_self
    rw [enterAll_cons, ih fun other member => unassigned other (List.mem_cons_of_mem _ member), List.length_cons,
      Nat.add_comm, UInt64.ofNat_add, ← UInt64.add_assoc]
    simp [enter, own]

theorem enterAll_next_assigned (assigned : ∀ write ∈ writes, write.assigned.isSome = true) :
    (held.enterAll now writes).next = held.next := by
  induction writes generalizing held with
  | nil => rfl
  | cons write writes ih =>
    rw [enterAll_cons, ih fun other member => assigned other (List.mem_cons_of_mem _ member)]
    simp [enter, assigned write List.mem_cons_self]

theorem stamped_assigned {write : Write} {version given : Version} (member : (write, version) ∈ held.stamped now writes)
    (assigned : write.assigned = some given) : version = given := by
  induction writes generalizing held with
  | nil => cases member
  | cons first writes ih =>
    rcases List.mem_cons.mp member with here | later
    · cases here
      simp [stamp, assigned]
    · exact ih later

theorem mem_copies {copy : Write} (member : copy ∈ Server.copies writes (held.results now writes)) :
    ∃ write version, (write, version) ∈ held.stamped now writes ∧ copy = { write with assigned := some version } := by
  obtain ⟨write, result, version, paired, accepted, same⟩ := Server.mem_copies member
  exact ⟨write, version, stamped_of_result paired accepted, same⟩

theorem copies_firm {write : Write} {version : Version} (member : (write, version) ∈ held.stamped now writes)
    (firm : write.optimistic = false) :
    { write with assigned := some version } ∈ Server.copies writes (held.results now writes) := by
  induction writes generalizing held with
  | nil => cases member
  | cons first writes ih =>
    simp only [results, Server.copies]
    rcases List.mem_cons.mp member with here | later
    · cases here
      have granted : (held.result now write).version = some (held.stamp write) := Entry.write_granted firm
      rw [granted]
      exact List.mem_cons_self
    · have inside := ih later
      split
      · exact List.mem_cons_of_mem _ inside
      · exact inside

theorem take_next {message : Message} (unassigned : message.Unassigned) :
    (held.take now message).next = held.next + UInt64.ofNat (held.stamped now message.written).length := by
  cases message with
  | writes writes => exact (enterAll_next unassigned).trans (by rw [length_stamped, Message.written])
  | removals _ => simp [take, Message.written, stamped]

theorem take_next_assigned {message : Message} (assigned : ∀ write ∈ message.written, write.assigned.isSome = true) :
    (held.take now message).next = held.next := by
  cases message with
  | writes _ => exact enterAll_next_assigned assigned
  | removals _ => exact strikeAll_next

end Holdings

namespace Message

theorem told_of_written {message : Message} {write : Write} (member : write ∈ message.written) :
    message.isEmpty = false := by
  cases message with
  | writes _ => simpa [isEmpty, length, written] using List.ne_nil_of_mem member
  | removals _ => cases member

theorem told_of_removed {message : Message} {removal : Removal} (member : removal ∈ message.removed) :
    message.isEmpty = false := by
  cases message with
  | writes _ => cases member
  | removals _ => simpa [isEmpty, length, removed] using List.ne_nil_of_mem member

end Message

namespace Deed

variable {deed : Deed} {write : Write} {version : Version}

theorem minted_client (client : deed.origin ≠ .peer) :
    deed.minted = deed.before.stamped deed.now deed.message.written := by
  unfold minted
  cases origin : deed.origin with
  | client _ => rfl
  | peer => exact absurd origin client

theorem client_of_minted (minted : (write, version) ∈ deed.minted) : deed.origin ≠ .peer := by
  intro peer
  rw [Deed.minted, peer] at minted
  cases minted

theorem stamped_of_minted (minted : (write, version) ∈ deed.minted) :
    (write, version) ∈ deed.before.stamped deed.now deed.message.written :=
  minted_client (client_of_minted minted) ▸ minted

theorem written_of_minted (minted : (write, version) ∈ deed.minted) : write ∈ deed.message.written :=
  Holdings.mem_of_stamped (stamped_of_minted minted)

@[simp] theorem news_removed : deed.news.removed = deed.message.removed :=
  Holdings.news_removed

/-- What is told of a batch is about no other keys than the batch is. -/
theorem news_keys (deed : Deed) {key : String} (member : key ∈ deed.news.keys) : key ∈ deed.message.keys := by
  rw [Message.keys, Deed.news, Holdings.news_written, Holdings.news_removed] at member
  rcases List.mem_append.mp member with copied | removed
  · obtain ⟨copy, inside, rfl⟩ := List.mem_map.mp copied
    obtain ⟨write, version, stamped, rfl⟩ := Holdings.mem_copies inside
    have named : write.key ∈ deed.message.keys := Message.key_written (Holdings.mem_of_stamped stamped)
    exact named
  · exact List.mem_append_right _ removed

theorem news_copies (minted : (write, version) ∈ deed.minted) (firm : write.optimistic = false) :
    { write with assigned := some version } ∈ deed.news.written := by
  rw [news, Holdings.news_written]
  exact Holdings.copies_firm (stamped_of_minted minted) firm

/-- A copy is a client's write under the version that was minted for it. -/
theorem copy_minted (client : deed.origin ≠ .peer) {copy : Write} (member : copy ∈ deed.news.written) :
    ∃ write version, (write, version) ∈ deed.minted ∧ copy = { write with assigned := some version } := by
  rw [news, Holdings.news_written] at member
  rw [minted_client client]
  exact Holdings.mem_copies member

end Deed

/-- The writes of clients in some batches, under the versions that were minted for them. -/
def mintedIn (deeds : List Deed) : List (Write × Version) :=
  deeds.flatMap Deed.minted

theorem minted_mem {deeds : List Deed} {deed : Deed} (noted : deed ∈ deeds) {pair : Write × Version}
    (minted : pair ∈ deed.minted) : pair ∈ mintedIn deeds :=
  List.mem_flatMap.mpr ⟨deed, noted, minted⟩

@[simp] theorem mintedIn_append (earlier later : List Deed) :
    mintedIn (earlier ++ later) = mintedIn earlier ++ mintedIn later :=
  List.flatMap_append

@[simp] theorem mintedIn_cons (deed : Deed) (later : List Deed) : mintedIn (deed :: later) = deed.minted ++ mintedIn later :=
  rfl

@[simp] theorem mintedIn_singleton (deed : Deed) : mintedIn [deed] = deed.minted :=
  List.append_nil _

namespace Ring

variable (ring : Ring)

/-- The same for the batches that the server at one seat took. -/
def mintedAt (deeds : List Deed) (seat : ring.Seat) : List (Write × Version) :=
  mintedIn (deeds.filter (·.here = ring.address seat))

def Bounded (deeds : List Deed) : Prop :=
  ∀ seat, (ring.mintedAt deeds seat).length < 2 ^ 64

instance (deeds : List Deed) : Decidable (ring.Bounded deeds) :=
  inferInstanceAs (Decidable (∀ seat : Fin ring.topology.count, (ring.mintedAt deeds seat).length < 2 ^ 64))

/-- The server at a seat took a client's batch that was meant for some shard. -/
structure Serves (deed : Deed) (seat shard : ring.Seat) : Prop where
  here : deed.here = ring.address seat
  origin : deed.origin = .client (ring.node shard)
  holds : ring.Holds seat shard
  sound : deed.message.Sound
  unassigned : deed.message.Unassigned
  owned : ∀ key ∈ deed.message.keys, ring.shardOf key = shard

/-- The message tells the server at a seat of a batch that another holder took. -/
structure Tells (source : Deed) (seat : ring.Seat) (message : Message) : Prop where
  news : message = source.news
  told : message.isEmpty = false
  served : ∃ origin shard, ring.Serves source origin shard ∧ ring.Holds seat shard ∧ seat ≠ origin

/-- Every batch came from a client or tells of one that did, and so does every letter. -/
structure Traced (scene : ring.Scene) : Prop where
  deeds : ∀ deed ∈ scene.deeds, (∃ seat shard, ring.Serves deed seat shard) ∨
    deed.origin = .peer ∧ ∃ seat, deed.here = ring.address seat ∧ ∃ source ∈ scene.deeds, ring.Tells source seat deed.message
  mail : ∀ letter ∈ scene.mailbox, ∃ seat, letter.target = (ring.address seat).async ∧
    ∃ source ∈ scene.deeds, ring.Tells source seat letter.message

variable {ring} {scene : ring.Scene}

theorem Move.taken {before after : ring.Scene} (move : ring.Move before after) :
    ∃ seat deed, deed.here = ring.address seat ∧ deed.before = before.holdings seat ∧
      after.holdings = Function.update before.holdings seat deed.after ∧ after.deeds = before.deeds ++ [deed] := by
  cases move with
  | served => exact ⟨_, _, rfl, rfl, rfl, rfl⟩
  | received => exact ⟨_, _, rfl, rfl, rfl, rfl⟩

theorem Move.grown {before after : ring.Scene} (move : ring.Move before after) :
    ∃ deed, after.deeds = before.deeds ++ [deed] := by
  obtain ⟨_, deed, _, _, _, grown⟩ := move.taken
  exact ⟨deed, grown⟩

/-- What the writes and removals of a batch keep about an entry, a move keeps. -/
theorem Move.keeps_entry {before after : ring.Scene} (move : ring.Move before after) (property : Entry → Prop)
    {seat : ring.Seat} {key : String}
    (written : ∀ deed ∈ after.deeds, ∀ write version entry,
      (write, version) ∈ deed.before.stamped deed.now deed.message.written → write.key = key →
      property entry → property (entry.write write (write.parents.getD []) version deed.now).2)
    (removed : ∀ deed ∈ after.deeds, ∀ removal entry, removal ∈ deed.message.removed → removal.key = key →
      property entry → property (entry.remove (removal.parents.getD [])).2)
    (held : property ((before.holdings seat).entry key)) : property ((after.holdings seat).entry key) := by
  obtain ⟨own, deed, _, same, changed, grown⟩ := move.taken
  rw [changed]
  by_cases here : seat = own
  · subst here
    have noted : deed ∈ after.deeds := grown ▸ List.mem_append_right _ (List.mem_singleton.mpr rfl)
    rw [Function.update_self]
    exact Holdings.take_keeps property (written deed noted) (removed deed noted) (same ▸ held)
  · rw [Function.update_of_ne here]
    exact held

/-- A letter waits on, or the server that it is for takes it in. -/
theorem Move.delivers {before after : ring.Scene} (move : ring.Move before after) {letter : Letter}
    (waits : letter ∈ before.mailbox) :
    letter ∈ after.mailbox ∨ ∃ seat now, letter.target = (ring.address seat).async ∧
      after.holdings seat = (before.holdings seat).take now letter.message ∧
      ring.deed seat .peer now (before.holdings seat) letter.message ∈ after.deeds := by
  cases move with
  | served => exact Or.inl (List.mem_append_left _ waits)
  | @received seat message earlier later now mail oldest sound =>
    rw [mail] at waits
    rcases List.mem_append.mp waits with front | rest
    · exact Or.inl (List.mem_append_left _ front)
    · rcases List.mem_cons.mp rest with rfl | back
      · refine Or.inr ⟨seat, now, rfl, ?_, List.mem_append_right _ (List.mem_singleton.mpr rfl)⟩
        simp [Scene.receive]
      · exact Or.inl (List.mem_append_right _ back)

/-- A server that takes a client's batch writes to the other holders about it. -/
theorem Move.serves {before after : ring.Scene} (move : ring.Move before after) {deed : Deed} (noted : deed ∈ after.deeds) :
    deed ∈ before.deeds ∨ deed.origin = .peer ∨ ∃ seat shard, ring.Serves deed seat shard ∧
      after.deeds = before.deeds ++ [deed] ∧ after.holdings seat = deed.after ∧
      ∀ letter ∈ ring.mail seat shard deed.news, letter ∈ after.mailbox := by
  cases move with
  | @served seat shard message now holds sound unassigned owned =>
    rcases List.mem_append.mp noted with old | new
    · exact Or.inl old
    · rw [List.mem_singleton.mp new]
      refine Or.inr (Or.inr ⟨seat, shard, ⟨rfl, rfl, holds, sound, unassigned, owned⟩, rfl, ?_, ?_⟩)
      · simp [Scene.serve, Deed.after, Ring.deed]
      · exact fun letter sent => List.mem_append_right _ sent
  | received =>
    rcases List.mem_append.mp noted with old | new
    · exact Or.inl old
    · rw [List.mem_singleton.mp new]
      exact Or.inr (Or.inl rfl)

theorem Serves.unique {deed : Deed} {seat shard other another : ring.Seat} (serves : ring.Serves deed seat shard)
    (again : ring.Serves deed other another) : seat = other ∧ shard = another := by
  have same := serves.origin.symm.trans again.origin
  simp only [Origin.client.injEq] at same
  exact ⟨ring.address_inj (serves.here.symm.trans again.here), ring.node_inj same⟩

theorem Serves.mail {deed : Deed} {seat shard other : ring.Seat} (serves : ring.Serves deed seat shard)
    (holds : ring.Holds other shard) (different : other ≠ seat) (told : deed.news.isEmpty = false) :
    { target := (ring.address other).async, message := deed.news } ∈ ring.mail seat shard deed.news :=
  (ring.mem_mail serves.holds.holder).mpr ⟨told, rfl, other, different, holds, rfl⟩

theorem Move.traced {before after : ring.Scene} (move : ring.Move before after) (traced : ring.Traced before) :
    ring.Traced after := by
  have grown (deed : Deed) : ∀ old ∈ before.deeds, old ∈ before.deeds ++ [deed] :=
    fun _ member => List.mem_append_left _ member
  have oldDeeds (deed : Deed) : ∀ old ∈ before.deeds, (∃ seat shard, ring.Serves old seat shard) ∨
      old.origin = .peer ∧ ∃ seat, old.here = ring.address seat ∧
        ∃ source ∈ before.deeds ++ [deed], ring.Tells source seat old.message := by
    intro old member
    rcases traced.deeds old member with client | ⟨peer, seat, here, source, noted, tells⟩
    · exact Or.inl client
    · exact Or.inr ⟨peer, seat, here, source, grown deed source noted, tells⟩
  cases move with
  | @served seat shard message now holds sound unassigned owned =>
    have serves : ring.Serves (ring.deed seat (.client (ring.node shard)) now (before.holdings seat) message) seat shard :=
      ⟨rfl, rfl, holds, sound, unassigned, owned⟩
    constructor
    · intro deed member
      rcases List.mem_append.mp member with old | new
      · exact oldDeeds _ deed old
      · rw [List.mem_singleton.mp new]
        exact Or.inl ⟨seat, shard, serves⟩
    · intro letter member
      rcases List.mem_append.mp member with old | new
      · obtain ⟨other, target, source, noted, tells⟩ := traced.mail letter old
        exact ⟨other, target, source, grown _ source noted, tells⟩
      · obtain ⟨told, same, other, different, others, target⟩ := (ring.mem_mail holds.holder).mp new
        refine ⟨other, target.symm, _, List.mem_append_right _ (List.mem_singleton.mpr rfl), ?_⟩
        exact ⟨same, same ▸ told, seat, shard, serves, others, different⟩
  | @received seat message earlier later now mail oldest sound =>
    obtain ⟨own, target, source, noted, tells⟩ := traced.mail { target := (ring.address seat).async, message }
      (mail ▸ List.mem_append_right _ List.mem_cons_self)
    cases ring.async_inj target
    constructor
    · intro deed member
      rcases List.mem_append.mp member with old | new
      · exact oldDeeds _ deed old
      · rw [List.mem_singleton.mp new]
        exact Or.inr ⟨rfl, seat, rfl, source, grown _ source noted, tells⟩
    · intro letter member
      have old : letter ∈ before.mailbox := by
        rw [mail]
        rcases List.mem_append.mp member with front | back
        · exact List.mem_append_left _ front
        · exact List.mem_append_right _ (List.mem_cons_of_mem _ back)
      obtain ⟨other, target, source, noted, tells⟩ := traced.mail letter old
      exact ⟨other, target, source, grown _ source noted, tells⟩

theorem Played.traced (played : ring.Played scene) : ring.Traced scene := by
  induction played with
  | refl => exact ⟨fun _ member => (by cases member), fun _ member => (by cases member)⟩
  | tail _ move ih => exact move.traced ih

theorem Serves.client {deed : Deed} {seat shard : ring.Seat} (serves : ring.Serves deed seat shard) :
    deed.origin ≠ .peer := by
  rw [serves.origin]
  intro peer
  cases peer

theorem Serves.minted {deed : Deed} {seat shard : ring.Seat} (serves : ring.Serves deed seat shard) :
    deed.minted = deed.before.stamped deed.now deed.message.written :=
  Deed.minted_client serves.client

theorem Tells.copy {source : Deed} {seat : ring.Seat} {message : Message} (tells : ring.Tells source seat message)
    {copy : Write} (member : copy ∈ message.written) :
    ∃ write version, (write, version) ∈ source.minted ∧ copy = { write with assigned := some version } := by
  obtain ⟨_, _, serves, _⟩ := tells.served
  rw [tells.news] at member
  exact Deed.copy_minted serves.client member

theorem Tells.stamped {source : Deed} {seat : ring.Seat} {message : Message} (tells : ring.Tells source seat message)
    {now : UInt64} {held : Holdings} {copy : Write} {version : Version}
    (member : (copy, version) ∈ held.stamped now message.written) :
    ∃ write, (write, version) ∈ source.minted ∧ copy = { write with assigned := some version } := by
  obtain ⟨write, given, minted, rfl⟩ := tells.copy (Holdings.mem_of_stamped member)
  cases Holdings.stamped_assigned member rfl
  exact ⟨write, minted, rfl⟩

/-- Whoever takes a write, it is a client's write under the version that was minted for it. -/
theorem Traced.stamped (traced : ring.Traced scene) {deed : Deed} (noted : deed ∈ scene.deeds) {write : Write}
    {version : Version} (member : (write, version) ∈ deed.before.stamped deed.now deed.message.written) :
    ({ write with assigned := none }, version) ∈ mintedIn scene.deeds := by
  rcases traced.deeds deed noted with ⟨seat, shard, serves⟩ | ⟨_, seat, _, source, told, tells⟩
  · have unassigned : write.assigned = none := serves.unassigned write (Holdings.mem_of_stamped member)
    have same : { write with assigned := none } = write := by
      rw [← unassigned]
    rw [same]
    exact minted_mem noted (serves.minted ▸ member)
  · obtain ⟨original, minted, rfl⟩ := tells.stamped member
    obtain ⟨_, _, serves, _⟩ := tells.served
    have unassigned : original.assigned = none := serves.unassigned original (Deed.written_of_minted minted)
    have same : { original with assigned := none } = original := by
      rw [← unassigned]
    exact minted_mem told (same.symm ▸ minted)

end Ring
end ReplicaRing
