import ReplicaRing.Proofs.Tracing

/-! Versions and what they stand for. Unless a store runs out of numbers, each version was minted
once, for one write. Every version that is live somewhere was minted, and only versions that a
client named are ever retired. -/

namespace ReplicaRing

private theorem number_toNat {count index : Nat} (bounded : 1 + count + index < 2 ^ 64) :
    (1 + UInt64.ofNat count + UInt64.ofNat index : UInt64).toNat = 1 + count + index := by
  simp only [UInt64.toNat_add, UInt64.toNat_ofNat']
  have one : UInt64.toNat 1 = 1 := rfl
  omega

theorem next_versions (store : StoreId) {count size : Nat} (bounded : count + size < 2 ^ 64) :
    (((List.range size).map fun index =>
        ({ store, number := 1 + UInt64.ofNat count + UInt64.ofNat index } : Version)).Nodup) ∧
      ∀ version ∈ (List.range size).map fun index =>
          ({ store, number := 1 + UInt64.ofNat count + UInt64.ofNat index } : Version),
        version.store = store ∧ count < version.number.toNat ∧ version.number.toNat ≤ count + size := by
  have number {index : Nat} (inside : index ∈ List.range size) :
      (1 + UInt64.ofNat count + UInt64.ofNat index : UInt64).toNat = 1 + count + index := by
    have less := List.mem_range.mp inside
    exact number_toNat (by omega)
  constructor
  · refine List.nodup_range.map_on fun first inFirst second inSecond same => ?_
    have equal := congrArg (·.number.toNat) same
    simp only [number inFirst, number inSecond] at equal
    omega
  · intro version member
    obtain ⟨index, inside, rfl⟩ := List.mem_map.mp member
    have less := List.mem_range.mp inside
    rw [number inside]
    exact ⟨rfl, by omega, by omega⟩

/-- Numbers that a store has not reached yet were not used before. -/
theorem nodup_next {store : StoreId} {count : Nat} {old new : List Version} (distinct : old.Nodup) (fresh : new.Nodup)
    (below : ∀ version ∈ old, version.store = store → version.number.toNat ≤ count)
    (above : ∀ version ∈ new, version.store = store ∧ count < version.number.toNat) : (old ++ new).Nodup := by
  apply List.nodup_append.mpr
  refine ⟨distinct, fresh, ?_⟩
  intro version before _ after equal
  obtain rfl := equal
  obtain ⟨home, larger⟩ := above version after
  have smaller := below version before home
  omega

namespace Deed

variable {deed : Deed}

theorem minted_peer (peer : deed.origin = .peer) : deed.minted = [] := by
  rw [minted, peer]

/-- A client's batch mints the next numbers of the store. -/
theorem minted_next (client : deed.origin ≠ .peer) (unassigned : deed.message.Unassigned) :
    deed.after.next = deed.before.next + UInt64.ofNat deed.minted.length ∧
      deed.minted.map (·.2) = (List.range deed.minted.length).map fun index =>
        { store := deed.before.id, number := deed.before.next + UInt64.ofNat index } := by
  rw [minted_client client]
  refine ⟨Holdings.take_next unassigned, ?_⟩
  rw [Holdings.stamped_versions unassigned, Holdings.length_stamped]

end Deed

namespace Ring

variable {ring : Ring} {scene : ring.Scene}

/-- Stores count on from one, and what was minted stays within the count. -/
structure Numbered (ring : Ring) (scene : ring.Scene) : Prop where
  id : ∀ seat, (scene.holdings seat).id = ring.setup.identity (ring.node seat)
  next : ∀ seat, (scene.holdings seat).next = 1 + UInt64.ofNat (ring.mintedAt scene.deeds seat).length
  counted : ∀ pair ∈ mintedIn scene.deeds, ∃ seat, pair.2.store = ring.setup.identity (ring.node seat) ∧
    1 ≤ pair.2.number.toNat ∧ pair.2.number.toNat ≤ (ring.mintedAt scene.deeds seat).length
  distinct : ((mintedIn scene.deeds).map (·.2)).Nodup

theorem mintedAt_append (earlier later : List Deed) (seat : ring.Seat) :
    ring.mintedAt (earlier ++ later) seat = ring.mintedAt earlier seat ++ ring.mintedAt later seat := by
  simp [mintedAt]

theorem mintedAt_own {deed : Deed} {seat : ring.Seat} (here : deed.here = ring.address seat) :
    ring.mintedAt [deed] seat = deed.minted := by
  simp [mintedAt, mintedIn, here]

theorem mintedAt_other {deed : Deed} {seat other : ring.Seat} (here : deed.here = ring.address seat)
    (different : other ≠ seat) : ring.mintedAt [deed] other = [] := by
  have elsewhere : ring.address seat ≠ ring.address other :=
    fun same => different (ring.sync_inj (congrArg Address.sync same)).symm
  simp [mintedAt, mintedIn, here, elsewhere]

theorem Bounded.of_append {earlier later : List Deed} (bounded : ring.Bounded (earlier ++ later)) :
    ring.Bounded earlier := by
  intro seat
  have total := bounded seat
  rw [mintedAt_append, List.length_append] at total
  omega

/-- A move mints the next numbers of one store, if any. -/
private theorem Move.mints {before after : ring.Scene} (move : ring.Move before after) (traced : ring.Traced before) :
    ∃ seat deed, deed.here = ring.address seat ∧ after.deeds = before.deeds ++ [deed] ∧
      after.holdings = Function.update before.holdings seat deed.after ∧
      deed.after.id = (before.holdings seat).id ∧
      deed.after.next = (before.holdings seat).next + UInt64.ofNat deed.minted.length ∧
      deed.minted.map (·.2) = (List.range deed.minted.length).map fun index =>
        { store := (before.holdings seat).id, number := (before.holdings seat).next + UInt64.ofNat index } := by
  cases move with
  | @served seat shard message now holds sound unassigned owned =>
    let deed := ring.deed seat (.client (ring.node shard)) now (before.holdings seat) message
    obtain ⟨next, versions⟩ := deed.minted_next nofun unassigned
    exact ⟨seat, deed, rfl, rfl, rfl, Holdings.take_id, next, versions⟩
  | @received seat message earlier later now mail oldest sound =>
    obtain ⟨_, _, source, _, tells⟩ := traced.mail { target := (ring.address seat).async, message }
      (mail ▸ List.mem_append_right _ List.mem_cons_self)
    have assigned : ∀ copy ∈ message.written, copy.assigned.isSome = true := by
      intro copy member
      obtain ⟨_, _, _, rfl⟩ := tells.copy member
      rfl
    refine ⟨seat, _, rfl, rfl, rfl, Holdings.take_id, ?_, rfl⟩
    exact (Holdings.take_next_assigned assigned).trans (UInt64.add_zero _).symm

theorem Move.numbered {before after : ring.Scene} (move : ring.Move before after) (identified : ring.Identified)
    (traced : ring.Traced before) (bounded : ring.Bounded after.deeds) (numbered : ring.Numbered before) :
    ring.Numbered after := by
  obtain ⟨seat, deed, here, grown, changed, id, next, versions⟩ := move.mints traced
  rw [numbered.id seat, numbered.next seat] at versions
  have own : ring.mintedAt after.deeds seat = ring.mintedAt before.deeds seat ++ deed.minted := by
    rw [grown, mintedAt_append, mintedAt_own here]
  have others {other : ring.Seat} (different : other ≠ seat) :
      ring.mintedAt after.deeds other = ring.mintedAt before.deeds other := by
    rw [grown, mintedAt_append, mintedAt_other here different, List.append_nil]
  have all : mintedIn after.deeds = mintedIn before.deeds ++ deed.minted := by
    simp [grown, mintedIn]
  have total := bounded seat
  rw [own, List.length_append] at total
  obtain ⟨distinct, numbers⟩ := next_versions (ring.setup.identity (ring.node seat)) total
  rw [← versions] at distinct numbers
  constructor
  · intro other
    rw [changed]
    by_cases same : other = seat
    · rw [same, Function.update_self, id, numbered.id]
    · rw [Function.update_of_ne same, numbered.id]
  · intro other
    rw [changed]
    by_cases same : other = seat
    · rw [same, Function.update_self, next, own, numbered.next, List.length_append, UInt64.ofNat_add, UInt64.add_assoc]
    · rw [Function.update_of_ne same, others same, numbered.next]
  · intro pair member
    rw [all] at member
    rcases List.mem_append.mp member with old | new
    · obtain ⟨other, store, positive, below⟩ := numbered.counted pair old
      refine ⟨other, store, positive, ?_⟩
      rw [grown, mintedAt_append, List.length_append]
      omega
    · obtain ⟨store, above, below⟩ := numbers pair.2 (List.mem_map_of_mem new)
      refine ⟨seat, store, by omega, ?_⟩
      rw [own, List.length_append]
      exact below
  · rw [all, List.map_append]
    apply nodup_next numbered.distinct distinct
    · intro version old home
      obtain ⟨pair, member, rfl⟩ := List.mem_map.mp old
      obtain ⟨other, store, _, below⟩ := numbered.counted pair member
      cases identified other seat (store.symm.trans home)
      exact below
    · intro version new
      exact ⟨(numbers version new).1, (numbers version new).2.1⟩

theorem Played.numbered (played : ring.Played scene) (identified : ring.Identified) (bounded : ring.Bounded scene.deeds) :
    ring.Numbered scene := by
  induction played with
  | refl =>
    exact ⟨fun _ => rfl, fun _ => rfl, fun _ member => (by cases member), List.nodup_nil⟩
  | tail earlier move ih =>
    obtain ⟨_, grown⟩ := move.grown
    have smaller := Bounded.of_append (grown ▸ bounded)
    exact move.numbered identified (Played.traced earlier) bounded (ih smaller)

theorem Numbered.unique (numbered : ring.Numbered scene) {first second : Write} {version : Version}
    (left : (first, version) ∈ mintedIn scene.deeds) (right : (second, version) ∈ mintedIn scene.deeds) :
    first = second :=
  congrArg Prod.fst (List.inj_on_of_nodup_map numbered.distinct left right rfl)

theorem Numbered.distinct_own (numbered : ring.Numbered scene) {deed : Deed} (noted : deed ∈ scene.deeds) :
    (deed.minted.map (·.2)).Nodup := by
  obtain ⟨earlier, later, split⟩ := List.append_of_mem noted
  have distinct := numbered.distinct
  rw [split, mintedIn_append, List.map_append, mintedIn_cons, List.map_append] at distinct
  exact (List.nodup_append.mp (List.nodup_append.mp distinct).2.1).1

theorem Played.live_minted (played : ring.Played scene) {seat : ring.Seat} {key : String} {version : Version}
    (live : ((scene.holdings seat).entry key).Live version) :
    ∃ write, (write, version) ∈ mintedIn scene.deeds ∧ write.key = key := by
  induction played with
  | refl => exact absurd live (Entry.vacant_not_live version)
  | @tail earlier last before move ih =>
    refine move.keeps_entry
      (fun entry => entry.Live version → ∃ write, (write, version) ∈ mintedIn last.deeds ∧ write.key = key) ?_ ?_ ?_ live
    · intro deed noted write stamp entry member equal old stored
      obtain rfl := equal
      obtain ⟨value, inside, rfl⟩ := stored
      rcases Entry.mem_write inside with kept | ⟨_, rfl⟩
      · exact old ⟨value, kept, rfl⟩
      · exact ⟨_, (Played.traced (before.tail move)).stamped noted member, rfl⟩
    · intro deed noted removal entry _ _ old live
      exact old (Entry.remove_live.mp live).1
    · intro live
      obtain ⟨write, minted, same⟩ := ih live
      obtain ⟨_, grown⟩ := move.grown
      rw [grown, mintedIn_append]
      exact ⟨write, List.mem_append_left _ minted, same⟩

end Ring

namespace Deed

/-- The batch names a version of a key as one to supersede or remove. -/
def Names (deed : Deed) (key : String) (version : Version) : Prop :=
  (∃ write ∈ deed.message.written, write.key = key ∧ version ∈ write.parents.getD []) ∨
    ∃ removal ∈ deed.message.removed, removal.key = key ∧ version ∈ removal.parents.getD []

theorem retires_only (deed : Deed) {key : String} {version : Version}
    (retired : (deed.after.entry key).Retired version) : (deed.before.entry key).Retired version ∨ deed.Names key version := by
  refine Holdings.take_keeps (fun entry => entry.Retired version →
    (deed.before.entry key).Retired version ∨ deed.Names key version) ?_ ?_ Or.inl retired
  · intro write stamp entry member same old retired
    rcases Entry.write_retires_only retired with kept | named
    · exact old kept
    · exact Or.inr (Or.inl ⟨write, Holdings.mem_of_stamped member, same, named⟩)
  · intro removal entry member same old retired
    rcases Entry.remove_retired.mp retired with kept | named
    · exact old kept
    · exact Or.inr (Or.inr ⟨removal, member, same, named⟩)

end Deed

namespace Turn

def Names (turn : Turn) (key : String) (version : Version) : Prop :=
  (∃ write ∈ turn.action.writes, write.key = key ∧ version ∈ write.parents.getD []) ∨
    ∃ removal ∈ turn.action.removals, removal.key = key ∧ version ∈ removal.parents.getD []

theorem names_of_offers {turn : Turn} {deed : Deed} (offers : turn.action.Offers deed.message) {key : String}
    {version : Version} (names : deed.Names key version) : turn.Names key version := by
  rcases names with ⟨write, member, rest⟩ | ⟨removal, member, rest⟩
  · exact Or.inl ⟨write, offers.1 write member, rest⟩
  · exact Or.inr ⟨removal, offers.2 removal member, rest⟩

end Turn

theorem Cluster.Ran.granted_minted {topology : Topology} {setup : Cluster.Setup} {chronicle : Chronicle}
    (ran : Ran topology setup chronicle) {turn : Turn} (taken : turn ∈ chronicle.turns) {write : Write}
    {version : Version} (granted : (write, version) ∈ turn.grants) : (write, version) ∈ mintedIn chronicle.deeds := by
  induction ran with
  | start => cases taken
  | step client now action _ ih =>
    rw [Chronicle.step, mintedIn_append]
    rcases List.mem_append.mp taken with old | new
    · exact List.mem_append_left _ (ih old)
    · rw [List.mem_singleton.mp new] at granted
      obtain ⟨deed, noted, minted⟩ := deeds_granted granted
      exact List.mem_append_right _ (minted_mem noted minted)

namespace Ring

variable {ring : Ring} {scene : ring.Scene} {chronicle : Chronicle}

theorem Tells.names {source : Deed} {seat : ring.Seat} {message : Message} (tells : ring.Tells source seat message)
    {deed : Deed} (same : deed.message = message) {key : String} {version : Version} (names : deed.Names key version) :
    source.Names key version := by
  rcases names with ⟨copy, member, rfl, named⟩ | ⟨removal, member, rfl, named⟩
  · obtain ⟨write, stamp, minted, rfl⟩ := tells.copy (same ▸ member)
    exact Or.inl ⟨write, Deed.written_of_minted minted, rfl, named⟩
  · rw [same, tells.news, Deed.news_removed] at member
    exact Or.inr ⟨removal, member, rfl, named⟩

/-- Only what a client's batch named is ever retired. -/
theorem Played.retired_named (played : ring.Played scene) {seat : ring.Seat} {key : String} {version : Version}
    (retired : ((scene.holdings seat).entry key).Retired version) :
    ∃ deed ∈ scene.deeds, (∃ own shard, ring.Serves deed own shard) ∧ deed.Names key version := by
  have named : ∃ deed ∈ scene.deeds, deed.Names key version := by
    induction played with
    | refl => exact absurd retired (Entry.vacant_not_retired version)
    | @tail earlier last before move ih =>
      obtain ⟨own, taken, _, held, changed, grown⟩ := move.taken
      rw [changed] at retired
      rw [grown]
      have old (kept : ((earlier.holdings seat).entry key).Retired version) :
          ∃ deed ∈ earlier.deeds ++ [taken], deed.Names key version := by
        obtain ⟨other, noted, names⟩ := ih kept
        exact ⟨other, List.mem_append_left _ noted, names⟩
      by_cases here : seat = own
      · subst here
        rw [Function.update_self] at retired
        rcases taken.retires_only retired with kept | names
        · exact old (held ▸ kept)
        · exact ⟨taken, List.mem_append_right _ (List.mem_singleton.mpr rfl), names⟩
      · rw [Function.update_of_ne here] at retired
        exact old retired
  obtain ⟨deed, noted, names⟩ := named
  rcases played.traced.deeds deed noted with serves | ⟨_, _, _, source, told, tells⟩
  · exact ⟨deed, noted, serves, names⟩
  · obtain ⟨own, shard, serves, _⟩ := tells.served
    exact ⟨source, told, ⟨own, shard, serves⟩, tells.names rfl names⟩

namespace Reached

theorem granted_minted (reached : ring.Reached chronicle) {turn : Turn} (taken : turn ∈ chronicle.turns) {write : Write}
    {version : Version} (granted : (write, version) ∈ turn.grants) : (write, version) ∈ mintedIn chronicle.deeds :=
  reached.ran.granted_minted taken granted

theorem removed_noted (reached : ring.Reached chronicle) {turn : Turn} (taken : turn ∈ chronicle.turns)
    {removal : Removal} (removed : removal ∈ turn.removed) :
    ∃ deed ∈ chronicle.deeds, deed.origin = .client (ring.node (ring.shardOf removal.key)) ∧
      removal ∈ deed.message.removed := by
  induction reached with
  | start => cases taken
  | step now action _ ih =>
    rcases List.mem_append.mp taken with old | new
    · obtain ⟨deed, noted, rest⟩ := ih old
      exact ⟨deed, List.mem_append_left _ noted, rest⟩
    · rw [List.mem_singleton.mp new] at removed
      obtain ⟨deed, noted, rest⟩ := Cluster.deeds_removed removed
      exact ⟨deed, List.mem_append_right _ noted, rest⟩

theorem names_turn (reached : ring.Reached chronicle) {deed : Deed} (noted : deed ∈ chronicle.deeds)
    (client : deed.origin ≠ .peer) {key : String} {version : Version} (names : deed.Names key version) :
    ∃ turn ∈ chronicle.turns, turn.Names key version := by
  induction reached with
  | start => cases noted
  | step now action _ ih =>
    rcases List.mem_append.mp noted with old | new
    · obtain ⟨turn, taken, named⟩ := ih old
      exact ⟨turn, List.mem_append_left _ taken, named⟩
    · obtain ⟨_, peer | ⟨offers, _⟩⟩ := Cluster.deeds_told new
      · exact absurd peer client
      · exact ⟨_, List.mem_append_right _ (List.mem_singleton.mpr rfl), Turn.names_of_offers offers names⟩

end Reached
end Ring
end ReplicaRing
