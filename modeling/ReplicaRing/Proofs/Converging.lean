import ReplicaRing.Proofs.Removing
import ReplicaRing.Proofs.Spreading

/-! When the holders of a shard agree. Without refusals and expiry, and as long as clients supersede
and remove only versions they were told of, the holders of a key hold the same live versions once
all mail is delivered, unless a copy came late: a holder drops a copy whose version was retired
there before, and then never learns which versions the write has superseded. -/

namespace ReplicaRing

/-- A batch after some others: nothing in it may be refused or expires, and the versions that it
names were minted in those others, for the same key. -/
structure Deed.Plain (deed : Deed) (earlier : List Deed) : Prop where
  firm : ∀ write ∈ deed.message.written, write.optimistic = false ∧ write.expiresAt = none
  known : ∀ key version, deed.Names key version → ∃ write, (write, version) ∈ mintedIn earlier ∧ write.key = key

def PlainDeeds (deeds : List Deed) : Prop :=
  ∀ earlier deed later, deeds = earlier ++ deed :: later → deed.origin ≠ .peer → deed.Plain earlier

/-- A step after some others: nothing in it may be refused or expires, and a client was told in
those others of each version that it names, for the same key. -/
structure Turn.Plain (turn : Turn) (earlier : List Turn) : Prop where
  firm : ∀ write ∈ turn.action.writes, write.optimistic = false ∧ write.expiresAt = none
  known : ∀ key version, turn.Names key version →
    ∃ told ∈ earlier, ∃ write, (write, version) ∈ told.grants ∧ write.key = key

def Chronicle.Plain (chronicle : Chronicle) : Prop :=
  ∀ earlier turn later, chronicle.turns = earlier ++ turn :: later → turn.Plain earlier

namespace Turn

theorem plain_iff {turn : Turn} {earlier : List Turn} :
    turn.Plain earlier ↔ (∀ write ∈ turn.action.writes, write.optimistic = false ∧ write.expiresAt = none) ∧
      (∀ write ∈ turn.action.writes, ∀ version ∈ write.parents.getD [],
        ∃ told ∈ earlier, ∃ pair ∈ told.grants, pair.2 = version ∧ pair.1.key = write.key) ∧
      ∀ removal ∈ turn.action.removals, ∀ version ∈ removal.parents.getD [],
        ∃ told ∈ earlier, ∃ pair ∈ told.grants, pair.2 = version ∧ pair.1.key = removal.key := by
  constructor
  · intro plain
    have known (key : String) (version : Version) (names : turn.Names key version) :
        ∃ told ∈ earlier, ∃ pair ∈ told.grants, pair.2 = version ∧ pair.1.key = key := by
      obtain ⟨told, listed, write, granted, same⟩ := plain.known key version names
      exact ⟨told, listed, (write, version), granted, rfl, same⟩
    exact ⟨plain.firm, fun write member version named => known _ _ (Or.inl ⟨write, member, rfl, named⟩),
      fun removal member version named => known _ _ (Or.inr ⟨removal, member, rfl, named⟩)⟩
  · intro parts
    obtain ⟨firm, written, removed⟩ := parts
    refine ⟨firm, fun key version names => ?_⟩
    rcases names with ⟨write, member, rfl, named⟩ | ⟨removal, member, rfl, named⟩
    · obtain ⟨told, listed, ⟨first, _⟩, granted, rfl, same⟩ := written write member version named
      exact ⟨told, listed, first, granted, same⟩
    · obtain ⟨told, listed, ⟨first, _⟩, granted, rfl, same⟩ := removed removal member version named
      exact ⟨told, listed, first, granted, same⟩

instance (turn : Turn) (earlier : List Turn) : Decidable (turn.Plain earlier) :=
  decidable_of_iff _ plain_iff.symm

end Turn

namespace Chronicle

theorem plain_iff {chronicle : Chronicle} : chronicle.Plain ↔
    ∀ index : Fin chronicle.turns.length, chronicle.turns[index].Plain (chronicle.turns.take index) := by
  constructor
  · intro plain index
    apply plain _ _ (chronicle.turns.drop (index + 1))
    exact (List.take_append_drop index chronicle.turns).symm.trans (by rw [List.drop_eq_getElem_cons index.isLt]; rfl)
  · intro each earlier turn later split
    have inside : earlier.length < chronicle.turns.length := by simp [split]
    simpa [split] using each ⟨earlier.length, inside⟩

instance (chronicle : Chronicle) : Decidable chronicle.Plain :=
  decidable_of_iff _ plain_iff.symm

end Chronicle

namespace PlainDeeds

variable {deeds : List Deed}

theorem of_append {later : List Deed} (plain : PlainDeeds (deeds ++ later)) : PlainDeeds deeds := by
  intro earlier deed rest equal
  obtain rfl := equal
  exact plain earlier deed (rest ++ later) (by simp)

theorem firm (plain : PlainDeeds deeds) {write : Write} {version : Version} (minted : (write, version) ∈ mintedIn deeds) :
    write.optimistic = false ∧ write.expiresAt = none := by
  obtain ⟨deed, noted, own⟩ := List.mem_flatMap.mp minted
  obtain ⟨earlier, later, rfl⟩ := List.append_of_mem noted
  exact (plain earlier deed later rfl (Deed.client_of_minted own)).firm write (Deed.written_of_minted own)

theorem named_minted (plain : PlainDeeds deeds) {deed : Deed} (noted : deed ∈ deeds) (client : deed.origin ≠ .peer)
    {key : String} {version : Version} (names : deed.Names key version) :
    ∃ write, (write, version) ∈ mintedIn deeds ∧ write.key = key := by
  obtain ⟨earlier, later, rfl⟩ := List.append_of_mem noted
  obtain ⟨write, minted, same⟩ := (plain earlier deed later rfl client).known key version names
  rw [mintedIn_append]
  exact ⟨write, List.mem_append_left _ minted, same⟩

theorem unnamed {earlier later : List Deed} {deed : Deed} (plain : PlainDeeds (earlier ++ deed :: later))
    (distinct : ((mintedIn (earlier ++ deed :: later)).map (·.2)).Nodup) {write : Write} {version : Version}
    (minted : (write, version) ∈ deed.minted) {other : Deed} (sooner : other ∈ earlier ++ [deed])
    (client : other.origin ≠ .peer) {key : String} : ¬ other.Names key version := by
  intro names
  have before : ∃ first, (first, version) ∈ mintedIn earlier := by
    rcases List.mem_append.mp sooner with old | new
    · obtain ⟨front, back, rfl⟩ := List.append_of_mem old
      obtain ⟨first, inside, _⟩ := (plain front other (back ++ deed :: later) (by simp) client).known key version names
      rw [mintedIn_append]
      exact ⟨first, List.mem_append_left _ inside⟩
    · rw [List.mem_singleton.mp new] at names client
      obtain ⟨first, inside, _⟩ := (plain earlier deed later rfl client).known key version names
      exact ⟨first, inside⟩
  obtain ⟨first, inside⟩ := before
  rw [mintedIn_append, List.map_append, List.nodup_append] at distinct
  have again : version ∈ (mintedIn (deed :: later)).map (·.2) := by
    refine List.mem_map.mpr ⟨(write, version), ?_, rfl⟩
    exact minted_mem List.mem_cons_self minted
  exact distinct.2.2 version (List.mem_map.mpr ⟨_, inside, rfl⟩) version again rfl

end PlainDeeds

namespace Ring

variable {ring : Ring} {scene : ring.Scene}

private theorem own_unnamed (plain : PlainDeeds scene.deeds) (numbered : ring.Numbered scene) {deed : Deed}
    (noted : deed ∈ scene.deeds) {write : Write} {version : Version} (minted : (write, version) ∈ deed.minted)
    {key : String} : ¬ deed.Names key version := by
  obtain ⟨earlier, later, split⟩ := List.append_of_mem noted
  rw [split] at plain
  have distinct := numbered.distinct
  rw [split] at distinct
  exact plain.unnamed distinct minted (List.mem_append_right _ List.mem_cons_self) (Deed.client_of_minted minted)

private theorem minted_foreign (plain : PlainDeeds scene.deeds) (numbered : ring.Numbered scene) {write : Write}
    {version : Version} (minted : (write, version) ∈ mintedIn scene.deeds) : version ∉ write.parents.getD [] := by
  intro named
  obtain ⟨deed, noted, own⟩ := List.mem_flatMap.mp minted
  exact own_unnamed plain numbered noted own (Or.inl ⟨write, Deed.written_of_minted own, rfl, named⟩)

theorem Played.apart (played : ring.Played scene) (identified : ring.Identified) (bounded : ring.Bounded scene.deeds)
    (plain : PlainDeeds scene.deeds) (seat : ring.Seat) (key : String) :
    ∀ version, ((scene.holdings seat).entry key).Live version → ¬ ((scene.holdings seat).entry key).Retired version := by
  induction played with
  | refl => exact fun version live => absurd live (Entry.vacant_not_live version)
  | @tail before after earlier move ih =>
    obtain ⟨_, grown⟩ := move.grown
    have played := Relation.ReflTransGen.tail earlier move
    have traced := Played.traced played
    have numbered := Played.numbered played identified bounded
    refine move.keeps_entry (fun entry => ∀ version, entry.Live version → ¬ entry.Retired version) ?_ ?_
      (ih (Bounded.of_append (grown ▸ bounded)) (PlainDeeds.of_append (grown ▸ plain)))
    · intro deed noted write version entry member _ apart
      have foreign := minted_foreign plain numbered (traced.stamped noted member)
      exact Entry.write_keeps_apart apart foreign
    · exact fun _ _ _ _ _ _ apart => Entry.remove_keeps_apart apart

/-- A holder took a message when a version of a key was retired there already. -/
def Late (deeds : List Deed) (here : Address) (message : Message) (key : String) (version : Version) : Prop :=
  ∃ deed ∈ deeds, deed.here = here ∧ deed.origin = .peer ∧ deed.message = message ∧ (deed.before.entry key).Retired version

/-- What a write supersedes is retired where the write was made, and at each other holder it is retired,
or a copy is under way, or the copy was late. -/
def Superseding (ring : Ring) (scene : ring.Scene) : Prop :=
  ∀ deed ∈ scene.deeds, ∀ own shard, ring.Serves deed own shard → ∀ write version, (write, version) ∈ deed.minted →
    ∀ parent ∈ write.parents.getD [], ((scene.holdings own).entry write.key).Retired parent ∧
      ∀ seat, ring.Holds seat shard → seat ≠ own → ((scene.holdings seat).entry write.key).Retired parent ∨
        { target := (ring.address seat).async, message := deed.news } ∈ scene.mailbox ∨
        Late scene.deeds (ring.address seat) deed.news write.key version

private theorem taken_retires {now : UInt64} {held : Holdings} {message : Message} {write : Write} {version parent : Version}
    (member : (write, version) ∈ held.stamped now message.written) (firm : write.optimistic = false)
    (named : parent ∈ write.parents.getD []) :
    ((held.take now message).entry write.key).Retired parent ∨ ((held.take now message).entry write.key).Retired version := by
  refine Holdings.take_makes_written (fun entry => entry.Retired parent ∨ entry.Retired version) member ?_ ?_
  · intro entry
    by_cases retired : entry.Retired version
    · exact Or.inr (Entry.write_keeps_retired retired)
    · exact Or.inl (Entry.write_retires_parents retired firm named)
  · exact fun _ _ _ _ _ kept => kept.imp Entry.write_keeps_retired Entry.write_keeps_retired

private theorem Move.keeps_retired {before after : ring.Scene} (move : ring.Move before after) {seat : ring.Seat}
    {key : String} {version : Version} (retired : ((before.holdings seat).entry key).Retired version) :
    ((after.holdings seat).entry key).Retired version :=
  move.keeps_entry (·.Retired version) (fun _ _ _ _ _ _ _ kept => Entry.write_keeps_retired kept)
    (fun _ _ _ _ _ _ kept => Entry.remove_retired.mpr (Or.inl kept)) retired

private theorem taken_or_late (plain : PlainDeeds scene.deeds) (numbered : ring.Numbered scene) {deed : Deed}
    (noted : deed ∈ scene.deeds) {own shard : ring.Seat} (serves : ring.Serves deed own shard) {write : Write}
    {version parent : Version} (minted : (write, version) ∈ deed.minted) (named : parent ∈ write.parents.getD [])
    {seat : ring.Seat} (holds : ring.Holds seat shard) (different : seat ≠ own) (now : UInt64) (held : Holdings) :
    ((held.take now deed.news).entry write.key).Retired parent ∨ (held.entry write.key).Retired version := by
  have firm := (plain.firm (minted_mem noted minted)).1
  have copied := Deed.news_copies minted firm
  obtain ⟨stamp, member⟩ := Holdings.exists_stamped now held copied
  cases Holdings.stamped_assigned member rfl
  refine (taken_retires member firm named).imp_right fun retired => ?_
  refine (ring.deed seat .peer now held deed.news).retires_only retired |>.resolve_right fun names => ?_
  have tells : ring.Tells deed seat deed.news :=
    ⟨rfl, Message.told_of_written copied, own, shard, serves, holds, different⟩
  exact own_unnamed plain numbered noted minted (tells.names rfl names)

private theorem Move.superseding {before after : ring.Scene} (move : ring.Move before after) (played : ring.Played after)
    (plain : PlainDeeds after.deeds) (numbered : ring.Numbered after) (superseding : ring.Superseding before) :
    ring.Superseding after := by
  intro deed noted own shard serves write version minted parent named
  have firm := (plain.firm (minted_mem noted minted)).1
  rcases move.serves noted with old | peer | ⟨seat, other, again, grown, changed, mail⟩
  · obtain ⟨home, others⟩ := superseding deed old own shard serves write version minted parent named
    refine ⟨move.keeps_retired home, fun seat holds different => ?_⟩
    rcases others seat holds different with retired | waits | ⟨late, taken, rest⟩
    · exact Or.inl (move.keeps_retired retired)
    · rcases move.delivers waits with still | ⟨target, now, inbox, changed, arrived⟩
      · exact Or.inr (Or.inl still)
      · cases ring.async_inj inbox
        rw [changed]
        refine (taken_or_late plain numbered noted serves minted named holds different now _).imp_right fun late => ?_
        exact Or.inr ⟨_, arrived, rfl, rfl, rfl, late⟩
    · obtain ⟨_, grown⟩ := move.grown
      exact Or.inr (Or.inr ⟨late, grown ▸ List.mem_append_left _ taken, rest⟩)
  · exact absurd peer serves.client
  · obtain ⟨rfl, rfl⟩ := serves.unique again
    constructor
    · rw [changed]
      refine (taken_retires (Deed.stamped_of_minted minted) firm named).resolve_right fun retired => ?_
      have same : ((after.holdings own).entry write.key).Retired version := by
        rw [changed]
        exact retired
      -- whoever named the new version did so before it was minted
      obtain ⟨sooner, member, ⟨_, _, client⟩, names⟩ := played.retired_named same
      rw [grown] at member plain
      have distinct := numbered.distinct
      rw [grown] at distinct
      exact plain.unnamed distinct minted member client.client names
    · intro seat holds different
      refine Or.inr (Or.inl (mail _ ?_))
      exact serves.mail holds different (Message.told_of_written (Deed.news_copies minted firm))

theorem Played.superseding (played : ring.Played scene) (identified : ring.Identified) (bounded : ring.Bounded scene.deeds)
    (plain : PlainDeeds scene.deeds) : ring.Superseding scene := by
  induction played with
  | refl => exact fun _ noted => by cases noted
  | tail earlier move ih =>
    obtain ⟨_, grown⟩ := move.grown
    have played := Relation.ReflTransGen.tail earlier move
    exact move.superseding played plain (Played.numbered played identified bounded)
      (ih (Bounded.of_append (grown ▸ bounded)) (PlainDeeds.of_append (grown ▸ plain)))

theorem Reached.plain_deeds {chronicle : Chronicle} (reached : ring.Reached chronicle) (plain : chronicle.Plain) :
    PlainDeeds chronicle.deeds := by
  induction reached with
  | start => exact fun earlier deed later split => absurd split (by simp)
  | @step before now action reached ih =>
    have old : PlainDeeds before.deeds := by
      apply ih
      intro earlier turn later split
      exact plain earlier turn (later ++ _) (by rw [Chronicle.step, split]; simp; rfl)
    have turn := plain before.turns _ [] rfl
    -- the batches of one step come after all batches of the steps before it
    have fresh (front : List Deed) {back : List Deed} {deed : Deed}
        (split : Cluster.deeds ring.client now action before.cluster = front ++ deed :: back)
        (client : deed.origin ≠ .peer) : deed.Plain (before.deeds ++ front) := by
      have noted : deed ∈ Cluster.deeds ring.client now action before.cluster :=
        split ▸ List.mem_append_right _ List.mem_cons_self
      rcases (Cluster.deeds_told noted).2 with peer | ⟨offers, _⟩
      · exact absurd peer client
      refine ⟨fun write member => turn.firm write (offers.1 write member), ?_⟩
      intro key version names
      obtain ⟨told, taken, write, granted, same⟩ := turn.known key version (Turn.names_of_offers offers names)
      rw [mintedIn_append]
      exact ⟨write, List.mem_append_left _ (reached.granted_minted taken granted), same⟩
    intro earlier deed later split client
    rcases List.append_eq_append_iff.mp split with ⟨front, rfl, rest⟩ | ⟨more, held, rest⟩
    · exact fresh front rest client
    · cases more with
      | nil =>
        rw [List.append_nil] at held
        have plainly := fresh [] rest.symm client
        rwa [List.append_nil, held] at plainly
      | cons first more =>
        simp only [List.cons_append, List.cons.injEq] at rest
        obtain ⟨rfl, _⟩ := rest
        exact old earlier deed more held client

/-- A holder took a copy whose version was retired there before, and has not retired all that the write
superseded. -/
def Overtaken (ring : Ring) (chronicle : Chronicle) (key : String) : Prop :=
  ∃ seat, ring.Holds seat (ring.shardOf key) ∧
    ∃ deed ∈ chronicle.deeds, deed.here = ring.address seat ∧ deed.origin = .peer ∧
      ∃ copy ∈ deed.message.written, copy.key = key ∧
        ∃ version, copy.assigned = some version ∧ (deed.before.entry key).Retired version ∧
          ∃ parent ∈ copy.parents.getD [], ¬ ((ring.holdings chronicle.cluster seat).entry key).Retired parent

def Agreed (ring : Ring) (cluster : Cluster) (key : String) : Prop :=
  ∀ first second, ring.Holds first (ring.shardOf key) → ring.Holds second (ring.shardOf key) → ∀ version,
    ((ring.holdings cluster first).entry key).Live version ↔ ((ring.holdings cluster second).entry key).Live version

/-- What is known of a plain run once all mail is delivered. -/
structure Settled (ring : Ring) (chronicle : Chronicle) : Prop where
  played : ring.Played (chronicle.scene ring)
  plain : PlainDeeds chronicle.deeds
  apart : ∀ seat key version, ((ring.holdings chronicle.cluster seat).entry key).Live version →
    ¬ ((ring.holdings chronicle.cluster seat).entry key).Retired version
  spread : ∀ write version, (write, version) ∈ mintedIn chronicle.deeds → ∀ seat, ring.Holds seat (ring.shardOf write.key) →
    ((ring.holdings chronicle.cluster seat).entry write.key).Live version ∨
      ((ring.holdings chronicle.cluster seat).entry write.key).Retired version
  superseding : ring.Superseding (chronicle.scene ring)
  idle : ∀ letter, letter ∉ chronicle.cluster.network.mailbox

theorem Reached.settled {chronicle : Chronicle} (reached : ring.Reached chronicle) (identified : ring.Identified)
    (bounded : ring.Bounded chronicle.deeds) (plain : chronicle.Plain) (idle : chronicle.cluster.network.mailbox = []) :
    ring.Settled chronicle := by
  have plainly := reached.plain_deeds plain
  have empty (letter : Letter) : letter ∉ chronicle.cluster.network.mailbox := by simp [idle]
  refine ⟨reached.played, plainly, fun seat key => reached.played.apart identified bounded plainly seat key, ?_,
    reached.played.superseding identified bounded plainly, empty⟩
  intro write version minted seat holds
  obtain ⟨firm, lasting⟩ := plainly.firm minted
  rcases reached.played.spread identified bounded write version minted firm lasting seat holds with
    known | ⟨letter, waits, _⟩
  · exact known.live_or_retired
  · exact absurd waits (empty letter)

namespace Settled

variable {chronicle : Chronicle}

private theorem not_agreed (settled : ring.Settled chronicle) {key : String} (overtaken : ring.Overtaken chronicle key) :
    ¬ ring.Agreed chronicle.cluster key := by
  intro agreed
  obtain ⟨seat, holds, deed, noted, _, peer, copy, member, rfl, _, _, _, parent, named, unretired⟩ := overtaken
  rcases settled.played.traced.deeds deed noted with ⟨_, _, client⟩ | ⟨_, _, _, source, told, tells⟩
  · exact absurd peer client.client
  obtain ⟨write, stamp, minted, rfl⟩ := tells.copy member
  obtain ⟨origin, shard, serves, _, _⟩ := tells.served
  have inside := Deed.written_of_minted minted
  have owner : ring.shardOf write.key = shard := serves.owned write.key (Message.key_written inside)
  have home := (settled.superseding source told origin shard serves write stamp minted parent named).1
  obtain ⟨first, known, same⟩ := settled.plain.named_minted told serves.client (Or.inl ⟨write, inside, rfl, named⟩)
  have live : ((ring.holdings chronicle.cluster seat).entry write.key).Live parent := by
    have either := settled.spread first parent known seat (same ▸ holds)
    rw [same] at either
    exact either.resolve_right unretired
  have homeLive := (agreed seat origin holds (owner ▸ serves.holds) parent).mp live
  exact settled.apart origin _ parent homeLive home

private theorem live_shared (settled : ring.Settled chronicle) {key : String} (punctual : ¬ ring.Overtaken chronicle key)
    {first second : ring.Seat} (holdsFirst : ring.Holds first (ring.shardOf key))
    (holdsSecond : ring.Holds second (ring.shardOf key)) {version : Version}
    (live : ((ring.holdings chronicle.cluster first).entry key).Live version) :
    ((ring.holdings chronicle.cluster second).entry key).Live version := by
  have unretired := settled.apart first key version live
  obtain ⟨write, minted, rfl⟩ := settled.played.live_minted live
  refine (settled.spread write version minted second holdsSecond).resolve_right fun retired => ?_
  obtain ⟨deed, noted, ⟨own, shard, serves⟩, names⟩ := settled.played.retired_named retired
  rcases names with ⟨later, member, same, named⟩ | ⟨removal, member, same, named⟩
  · -- a write that supersedes the version reached the first holder, so it came late there
    obtain ⟨stamp, stamped⟩ := Holdings.exists_stamped deed.now deed.before member
    have made : (later, stamp) ∈ deed.minted := serves.minted ▸ stamped
    have owner : ring.shardOf later.key = shard := serves.owned later.key (Message.key_written member)
    obtain ⟨home, others⟩ := settled.superseding deed noted own shard serves later stamp made version named
    rw [same] at home others owner
    by_cases here : first = own
    · exact unretired (here ▸ home)
    rcases others first (owner ▸ holdsFirst) here with retired | waits | ⟨late, taken, place, peer, message, before⟩
    · exact unretired retired
    · exact settled.idle _ waits
    · refine punctual ⟨first, holdsFirst, late, taken, place, peer, { later with assigned := some stamp }, ?_, same, stamp,
        rfl, before, version, named, unretired⟩
      rw [message]
      exact Deed.news_copies made (settled.plain.firm (minted_mem noted made)).1
  · have owner : ring.shardOf removal.key = shard := serves.owned removal.key (Message.key_removed member)
    rw [same] at owner
    rcases settled.played.leaving noted serves member named (owner ▸ holdsFirst) with ⟨letter, waits, _⟩ | gone
    · exact settled.idle letter waits
    · rw [same] at gone
      exact gone.2 live

end Settled

/-- With all mail delivered after a plain run, the holders of a key agree on its live versions if and only if
no copy was overtaken by a write that supersedes it. -/
theorem agreed_iff_not_overtaken (ring : Ring) (identified : ring.Identified) {chronicle : Chronicle}
    (reached : ring.Reached chronicle) (bounded : ring.Bounded chronicle.deeds) (plain : chronicle.Plain)
    (idle : chronicle.cluster.network.mailbox = []) (key : String) :
    ring.Agreed chronicle.cluster key ↔ ¬ ring.Overtaken chronicle key := by
  have settled := reached.settled identified bounded plain idle
  constructor
  · exact fun agreed overtaken => settled.not_agreed overtaken agreed
  · intro punctual first second holdsFirst holdsSecond version
    exact ⟨settled.live_shared punctual holdsFirst holdsSecond, settled.live_shared punctual holdsSecond holdsFirst⟩

/-- Three writes of one key, each in place of the one before. The last one is made while the primary is
down, by a machine that has no copy of the others yet. -/
def overtaking : Chronicle :=
  .play .trio
    [(0, .write [.lasting "k3" [1] []]),
     (0, .write [.lasting "k3" [2] [{ store := .ofName "a", number := 1 }]]),
     (0, .down { sync := ⟨"tcp://a"⟩, async := ⟨"queue://a"⟩ }),
     (0, .write [.lasting "k3" [3] [{ store := .ofName "a", number := 2 }]]),
     (0, .up { sync := ⟨"tcp://a"⟩, async := ⟨"queue://a"⟩ }),
     (0, .deliver),
     (0, .deliver)]

/-- The second machine keeps the first write for good, though it was superseded twice. -/
theorem overtaking_disagrees :
    Ring.trio.Reached overtaking ∧ overtaking.Plain ∧ overtaking.cluster.network.mailbox = [] ∧
      overtaking.cluster.network.down = [] ∧ overtaking.cluster.network.hung = [] ∧
      ¬ Ring.trio.Agreed overtaking.cluster "k3" := by
  refine ⟨.play .trio _, by decide +kernel, by decide +kernel, by decide +kernel, by decide +kernel, ?_⟩
  intro agreed
  have first : Ring.trio.Holds ⟨0, by decide⟩ (Ring.trio.shardOf "k3") := ⟨rfl, by decide +kernel⟩
  have second : Ring.trio.Holds ⟨1, by decide⟩ (Ring.trio.shardOf "k3") := ⟨rfl, by decide +kernel⟩
  have live : ((Ring.trio.holdings overtaking.cluster ⟨1, by decide⟩).entry "k3").Live
      { store := .ofName "a", number := 1 } := by decide +kernel
  have gone : ¬ ((Ring.trio.holdings overtaking.cluster ⟨0, by decide⟩).entry "k3").Live
      { store := .ofName "a", number := 1 } := by decide +kernel
  exact gone ((agreed _ _ first second _).mpr live)

theorem overtaking_agreed_iff :
    Ring.trio.Agreed overtaking.cluster "k3" ↔ ¬ Ring.trio.Overtaken overtaking "k3" :=
  agreed_iff_not_overtaken .trio trio_identified (.play .trio _) (by decide +kernel) (by decide +kernel)
    (by decide +kernel) "k3"

end Ring
end ReplicaRing
