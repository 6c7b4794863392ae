import ReplicaRing.Proofs.Minting

/-! A removal reaches every holder and lasts. Until a holder has dropped a version that a client
removed, the removal waits in the mail for that holder. After that no copy brings the version
back, not even one that was never sent. -/

namespace ReplicaRing

def RemovalWaits (mailbox : List Letter) (target : Endpoint) (key : String) (version : Version) : Prop :=
  ∃ letter ∈ mailbox, letter.target = target ∧
    ∃ removal ∈ letter.message.removed, removal.key = key ∧ version ∈ removal.parents.getD []

theorem Holdings.take_keeps_gone {now : UInt64} {held : Holdings} {message : Message} {key : String} {version : Version}
    (gone : (held.entry key).Gone version) : ((held.take now message).entry key).Gone version :=
  take_keeps (·.Gone version) (fun _ _ _ _ _ kept => Entry.write_keeps_gone kept)
    (fun _ _ _ _ kept => Entry.remove_keeps_gone kept) gone

theorem Holdings.take_makes_gone {now : UInt64} {held : Holdings} {message : Message} {removal : Removal}
    {version : Version} (member : removal ∈ message.removed) (named : version ∈ removal.parents.getD []) :
    ((held.take now message).entry removal.key).Gone version :=
  take_makes_removed (·.Gone version) member (fun _ => Entry.remove_makes_gone named)
    (fun _ _ _ _ kept => Entry.remove_keeps_gone kept)

namespace Ring

variable {ring : Ring}

/-- A version of a key is gone at a seat, or will be once its removal is delivered. -/
def Leaving (ring : Ring) (scene : ring.Scene) (seat : ring.Seat) (key : String) (version : Version) : Prop :=
  RemovalWaits scene.mailbox (ring.address seat).async key version ∨ ((scene.holdings seat).entry key).Gone version

private theorem Move.gone {before after : ring.Scene} (move : ring.Move before after) {seat : ring.Seat} {key : String}
    {version : Version} (gone : ((before.holdings seat).entry key).Gone version) :
    ((after.holdings seat).entry key).Gone version :=
  move.keeps_entry (·.Gone version) (fun _ _ _ _ _ _ _ kept => Entry.write_keeps_gone kept)
    (fun _ _ _ _ _ _ kept => Entry.remove_keeps_gone kept) gone

private theorem Moves.gone {first last : ring.Scene} (moves : ring.Moves first last) {seat : ring.Seat} {key : String}
    {version : Version} (gone : ((first.holdings seat).entry key).Gone version) :
    ((last.holdings seat).entry key).Gone version := by
  induction moves with
  | refl => exact gone
  | tail _ move ih => exact move.gone ih

private theorem Move.leaving {before after : ring.Scene} (move : ring.Move before after) {seat : ring.Seat} {key : String}
    {version : Version} (leaving : ring.Leaving before seat key version) : ring.Leaving after seat key version := by
  rcases leaving with ⟨letter, waits, target, removal, inside, rfl, named⟩ | gone
  · rcases move.delivers waits with still | ⟨other, now, inbox, changed, _⟩
    · exact Or.inl ⟨letter, still, target, removal, inside, rfl, named⟩
    · cases ring.async_inj (inbox.symm.trans target)
      apply Or.inr
      rw [changed]
      exact Holdings.take_makes_gone inside named
  · exact Or.inr (move.gone gone)

private theorem Moves.leaving {first last : ring.Scene} (moves : ring.Moves first last) {seat : ring.Seat} {key : String}
    {version : Version} (leaving : ring.Leaving first seat key version) : ring.Leaving last seat key version := by
  induction moves with
  | refl => exact leaving
  | tail _ move ih => exact move.leaving ih

theorem Played.leaving {scene : ring.Scene} (played : ring.Played scene) {deed : Deed} (noted : deed ∈ scene.deeds)
    {own shard : ring.Seat} (serves : ring.Serves deed own shard) {removal : Removal}
    (member : removal ∈ deed.message.removed) {version : Version} (named : version ∈ removal.parents.getD [])
    {seat : ring.Seat} (holds : ring.Holds seat shard) : ring.Leaving scene seat removal.key version := by
  induction played with
  | refl => cases noted
  | tail _ move ih =>
    rcases move.serves noted with old | peer | ⟨origin, other, again, _, changed, mail⟩
    · exact move.leaving (ih old)
    · exact absurd peer serves.client
    · obtain ⟨rfl, rfl⟩ := serves.unique again
      by_cases here : seat = own
      · subst here
        apply Or.inr
        rw [changed]
        exact Holdings.take_makes_gone member named
      · have kept : removal ∈ deed.news.removed := by
          rw [Deed.news_removed]
          exact member
        exact Or.inl ⟨_, mail _ (again.mail holds here (Message.told_of_removed kept)), rfl, removal, kept, rfl, named⟩

/-- How a ring may go on: by steps, and by letters that were never sent or come once more. -/
inductive Onward (ring : Ring) (first : Cluster) : Cluster → Prop where
  | here : Onward ring first first
  | step {last : Cluster} (now : UInt64) (action : Action) (earlier : Onward ring first last) :
      Onward ring first (Cluster.step ring.client now action last).2
  | stray {last next : Cluster} (now : UInt64) (letter : Letter) (earlier : Onward ring first last)
      (applied : Cluster.apply now letter last = some next) : Onward ring first next

/-- A letter from nowhere is taken in or turned away, and leaves all else as it is. -/
private theorem stray_holdings {cluster next : Cluster} (housed : ring.Housed cluster) {now : UInt64} {letter : Letter}
    (applied : Cluster.apply now letter cluster = some next) :
    ring.Housed next ∧ next.network.mailbox = cluster.network.mailbox ∧
      ∀ seat, ring.holdings next seat = ring.holdings cluster seat ∨
        ring.holdings next seat = (ring.holdings cluster seat).take now letter.message := by
  simp only [Cluster.apply, Option.bind_eq_bind, Option.bind_eq_some_iff, Option.pure_def, Option.some.injEq] at applied
  obtain ⟨number, addressed, server, found, rfl⟩ := applied
  obtain ⟨seat, registered, target, rfl⟩ := housed.addressee_iff.mp addressed
  obtain ⟨_, stored, placed⟩ := housed.seated seat
  cases stored.symm.trans found
  rw [server.receive_eq_handle]
  cases accepted : Server.accepts .peer letter.message with
  | false =>
    rw [server.handle_refused now accepted]
    refine ⟨settle_housed housed placed (by simp), by simp [settle_mailbox housed], fun other => Or.inl ?_⟩
    rw [settle_holdings housed, ← holdings_seated found, Function.update_eq_self]
  | true =>
    obtain ⟨store, changed, shape⟩ := server.handle_accepted now accepted
    have quiet := server.handle_quiet now accepted
    refine ⟨settle_housed housed (by rw [shape]; exact placed) (by simp [quiet]), ?_, fun other => ?_⟩
    · rw [settle_mailbox housed, quiet]
      simp
    · rw [settle_holdings housed, shape]
      by_cases same : other = seat
      · subst same
        apply Or.inr
        rw [Function.update_self, holdings_seated found, ← changed]
        rfl
      · exact Or.inl (Function.update_of_ne same _ _)

namespace Onward

variable {first last : Cluster}

theorem housed (onward : ring.Onward first last) (housed : ring.Housed first) : ring.Housed last := by
  induction onward with
  | here => exact housed
  | step now action _ ih => exact (step_moves ih now action).1
  | stray now letter _ applied ih => exact (stray_holdings ih applied).1

private theorem leaving (onward : ring.Onward first last) (housed : ring.Housed first) {seat : ring.Seat} {key : String}
    {version : Version} (before : ring.Leaving (ring.look { cluster := first, notes := [] }) seat key version) :
    ring.Leaving (ring.look { cluster := last, notes := [] }) seat key version := by
  induction onward with
  | here => exact before
  | step now action earlier ih => exact Moves.leaving (step_moves (earlier.housed housed) now action).2 ih
  | @stray last next now letter earlier applied ih =>
    obtain ⟨_, mail, held⟩ := stray_holdings (earlier.housed housed) applied
    refine ih.imp (fun waits => ?_) (fun gone => ?_)
    · rw [look, view, mail]
      exact waits
    · change ((ring.holdings next seat).entry key).Gone version
      rcases held seat with same | taken
      · rw [same]
        exact gone
      · rw [taken]
        exact Holdings.take_keeps_gone gone

theorem gone (onward : ring.Onward first last) (housed : ring.Housed first) {seat : ring.Seat} {key : String}
    {version : Version} (before : ((ring.holdings first seat).entry key).Gone version) :
    ((ring.holdings last seat).entry key).Gone version := by
  induction onward with
  | here => exact before
  | step now action earlier ih =>
    exact Moves.gone (step_moves (earlier.housed housed) now action).2 ih
  | stray now letter earlier applied ih =>
    obtain ⟨_, _, held⟩ := stray_holdings (earlier.housed housed) applied
    rcases held seat with same | taken
    · rw [same]
      exact ih
    · rw [taken]
      exact Holdings.take_keeps_gone ih

end Onward

/-- No read of a key at the server returns this version. -/
def Unread (server : Server) (key : String) (version : Version) : Prop :=
  ∀ now reads, ∃ found, (server.answer .never now (.read reads)).answer = .values found ∧
    ∀ read values, (read, values) ∈ reads.zip found → read.key = key → ∀ value ∈ values, value.version ≠ version

private theorem gone_unread {server : Server} {key : String} {version : Version}
    (gone : (server.store.table.entry key).Gone version) : Unread server key version := by
  intro now reads
  obtain ⟨store, _, shape⟩ := server.read_answered now reads
  refine ⟨reads.map fun read => (server.holdings.entry read.key).read read.version now, ?_, ?_⟩
  · rw [Server.answer, shape]
    rfl
  · intro read values paired same value member returned
    rw [List.zip_map_right, List.mem_map] at paired
    obtain ⟨⟨first, second⟩, twice, equal⟩ := paired
    simp only [Prod.map, id_eq, Prod.mk.injEq] at equal
    obtain ⟨rfl, rfl⟩ := equal
    have diagonal : first = second := by
      obtain ⟨index, inside, pair⟩ := List.mem_iff_getElem.mp twice
      simp only [List.getElem_zip, Prod.mk.injEq] at pair
      exact pair.1.symm.trans pair.2
    subst diagonal same
    exact gone.2 ⟨value, Entry.mem_read member, returned⟩

/-- Once a client was told of a removal, each holder of the shard drops the version or has the removal
waiting in its mail, and from where it was dropped it is never read again. -/
theorem acknowledged_removal_sticks (ring : Ring) {chronicle : Chronicle} (reached : ring.Reached chronicle) {turn : Turn}
    (taken : turn ∈ chronicle.turns) {removal : Removal} (removed : removal ∈ turn.removed) {version : Version}
    (named : version ∈ removal.parents.getD []) {later : Cluster} (onward : ring.Onward chronicle.cluster later)
    {seat : ring.Seat} (holds : ring.Holds seat (ring.shardOf removal.key)) :
    ∃ server, later.servers[(seat : Nat)]? = some server ∧
      (RemovalWaits later.network.mailbox (ring.address seat).async removal.key version ∨
        (server.store.table.entry removal.key).Gone version) ∧
      ((server.store.table.entry removal.key).Gone version → ∀ last, ring.Onward later last →
        ∃ server, last.servers[(seat : Nat)]? = some server ∧
          (server.store.table.entry removal.key).Gone version ∧ Unread server removal.key version) := by
  have housed := onward.housed reached.housed
  obtain ⟨server, found, _⟩ := housed.seated seat
  obtain ⟨deed, noted, origin, member⟩ := reached.removed_noted taken removed
  refine ⟨server, found, ?_, ?_⟩
  · rcases reached.played.traced.deeds deed noted with ⟨own, shard, serves⟩ | ⟨peer, _⟩
    · have owner : ring.shardOf removal.key = shard :=
        serves.owned removal.key (Message.key_removed member)
      have leaving := reached.played.leaving noted serves member named (owner ▸ holds)
      have final := onward.leaving reached.housed leaving
      rw [← entry_seated found]
      exact final
    · rw [origin] at peer
      cases peer
  · intro gone last further
    obtain ⟨other, stored, _⟩ := (further.housed housed).seated seat
    have after : (other.store.table.entry removal.key).Gone version := by
      rw [← entry_seated stored]
      exact further.gone housed (by rw [entry_seated found]; exact gone)
    exact ⟨other, stored, after, gone_unread after⟩

/-- A removal that the second machine takes for the first one, before it has a copy of what it removes. -/
def removingAhead : Chronicle :=
  .play .trio
    [(0, .write [.lasting "k3" [1] []]),
     (0, .down { sync := ⟨"tcp://a"⟩, async := ⟨"queue://a"⟩ }),
     (0, .remove [{ key := "k3", parents := some [{ store := .ofName "a", number := 1 }] }])]

theorem removingAhead_sticks :
    ∃ server, (Cluster.step Ring.trio.client 0 .deliver removingAhead.cluster).2.servers[1]? = some server ∧
      (RemovalWaits (Cluster.step Ring.trio.client 0 .deliver removingAhead.cluster).2.network.mailbox ⟨"queue://b"⟩ "k3"
          { store := .ofName "a", number := 1 } ∨
        (server.store.table.entry "k3").Gone { store := .ofName "a", number := 1 }) ∧
      ((server.store.table.entry "k3").Gone { store := .ofName "a", number := 1 } →
        ∀ last, Ring.trio.Onward (Cluster.step Ring.trio.client 0 .deliver removingAhead.cluster).2 last →
          ∃ server, last.servers[1]? = some server ∧
            (server.store.table.entry "k3").Gone { store := .ofName "a", number := 1 } ∧
            Unread server "k3" { store := .ofName "a", number := 1 }) := by
  have told : ∃ turn ∈ removingAhead.turns,
      ({ key := "k3", parents := some [{ store := .ofName "a", number := 1 }] } : Removal) ∈ turn.removed := by
    decide +kernel
  obtain ⟨turn, taken, removed⟩ := told
  have reached : Ring.trio.Reached removingAhead := .play .trio _
  have holds : Ring.trio.Holds ⟨1, by decide⟩ (Ring.trio.shardOf "k3") := ⟨rfl, by decide +kernel⟩
  have named : ({ store := .ofName "a", number := 1 } : Version) ∈
      (Removal.mk "k3" (some [{ store := .ofName "a", number := 1 }])).parents.getD [] := List.mem_cons_self
  have sticks := acknowledged_removal_sticks .trio reached taken removed named (.step 0 .deliver .here) holds
  exact sticks

end Ring
end ReplicaRing
