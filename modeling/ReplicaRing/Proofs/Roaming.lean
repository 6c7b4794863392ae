import Mathlib.Logic.Relation
import ReplicaRing.Proofs.Tracing

/-! Runs of any cluster, over any topology and with any clients. Machines may share an address and mail may
go astray, so little is said of the mail but where it came from. It is enough for what holds of a version
wherever it turns up. -/

namespace ReplicaRing

/-- What the servers hold, seat by seat, the mail on its way, and the batches noted down. -/
structure Snapshot where
  held : List Holdings
  mailbox : List Letter
  deeds : List Deed

def Record.snapshot (record : Record) : Snapshot where
  held := record.cluster.servers.map Server.holdings
  mailbox := record.cluster.network.mailbox
  deeds := record.notes

def Chronicle.snapshot (chronicle : Chronicle) : Snapshot :=
  Record.snapshot { cluster := chronicle.cluster, notes := chronicle.deeds }

/-- A batch of a client, who leaves versions to the server. -/
structure Deed.Original (deed : Deed) : Prop where
  client : deed.origin ≠ .peer
  sound : deed.message.Sound
  unassigned : deed.message.Unassigned

namespace Snapshot

def opening (topology : Topology) (setup : Cluster.Setup) : Snapshot where
  held := topology.nodes.map fun node => .fresh (setup.identity node)
  mailbox := []
  deeds := []

/-- The server at a seat takes a batch, which leaves some mail. -/
def take (snapshot : Snapshot) (seat : Nat) (deed : Deed) (mailbox : List Letter) : Snapshot where
  held := snapshot.held.set seat deed.after
  mailbox := mailbox
  deeds := snapshot.deeds ++ [deed]

def after (snapshot : Snapshot) (earlier : List Deed) : Snapshot :=
  { snapshot with deeds := earlier ++ snapshot.deeds }

theorem take_after (snapshot : Snapshot) (earlier : List Deed) (seat : Nat) (deed : Deed) (mailbox : List Letter) :
    (snapshot.take seat deed mailbox).after earlier = (snapshot.after earlier).take seat deed mailbox := by
  simp [after, take]

/-- A server takes a client's batch and sends word of it, or it takes in a letter, or mail is put in another order
or let go. -/
inductive Step : Snapshot → Snapshot → Prop where
  | served {snapshot : Snapshot} {seat : Nat} {deed : Deed} {sent : List Letter}
      (found : snapshot.held[seat]? = some deed.before) (original : deed.Original)
      (told : ∀ letter ∈ sent, letter.message = deed.news) :
      Step snapshot (snapshot.take seat deed (snapshot.mailbox ++ sent))
  | received {snapshot : Snapshot} {seat : Nat} {deed : Deed} {letter : Letter} {left : List Letter}
      (found : snapshot.held[seat]? = some deed.before) (peer : deed.origin = .peer)
      (waited : letter ∈ snapshot.mailbox) (same : deed.message = letter.message)
      (kept : ∀ other ∈ left, other ∈ snapshot.mailbox) :
      Step snapshot (snapshot.take seat deed left)
  | sorted {snapshot : Snapshot} {left : List Letter} (kept : ∀ other ∈ left, other ∈ snapshot.mailbox) :
      Step snapshot { snapshot with mailbox := left }

abbrev Steps : Snapshot → Snapshot → Prop :=
  Relation.ReflTransGen Step

theorem steps_after {first last : Snapshot} (steps : Steps first last) (earlier : List Deed) :
    Steps (first.after earlier) (last.after earlier) := by
  induction steps with
  | refl => exact .refl
  | tail _ step ih =>
    apply ih.tail
    cases step with
    | served found original told =>
      rw [take_after]
      exact .served found original told
    | received found peer waited same kept =>
      rw [take_after]
      exact .received found peer waited same kept
    | sorted kept => exact .sorted kept

end Snapshot

namespace Record

variable {record : Record}

theorem snapshot_settle {α : Type} (seat : Nat) (outcome : Outcome α) (note : Option Deed) :
    snapshot (record.jot (record.cluster.settle seat outcome) note) =
      { held := (record.cluster.servers.map Server.holdings).set seat outcome.server.holdings
        mailbox := record.cluster.network.mailbox ++
          outcome.mail.filter fun letter => (record.cluster.network.addressee letter.target).isSome
        deeds := record.notes ++ note.toList } := by
  simp only [snapshot, Noted.jot_cluster, Noted.jot_notes, Cluster.settle, Ring.handAll_post, List.map_set]

private theorem snapshot_idle {α : Type} {seat : Nat} {server : Server} {outcome : Outcome α}
    (found : record.cluster.servers[seat]? = some server) (same : outcome.server.holdings = server.holdings)
    (quiet : outcome.mail = []) :
    snapshot (record.jot (record.cluster.settle seat outcome) none) = record.snapshot := by
  obtain ⟨inside, rfl⟩ := List.getElem?_eq_some_iff.mp found
  rw [snapshot_settle, same, quiet, ← List.map_set, List.set_getElem_self]
  simp [snapshot]

theorem call_steps (now : UInt64) (endpoint : Endpoint) {asked : Call} (record : Record)
    (client : ∀ origin message, asked.batch = some (origin, message) → origin ≠ .peer) :
    Snapshot.Steps record.snapshot (snapshot (Noted.call Occasion.deed now endpoint asked record).2) := by
  rcases Noted.call_cases Occasion.deed now endpoint asked record with
    ⟨error, same⟩ | ⟨seat, server, _, found, same⟩
  · rw [same]
  rw [same, Occasion.deed_answering]
  cases sent : asked.batch with
  | none =>
    obtain ⟨kept, _, quiet⟩ := server.answer_idle now sent
    rw [Option.bind_none, snapshot_idle found kept quiet]
  | some pair =>
    obtain ⟨origin, message⟩ := pair
    obtain ⟨next, mail⟩ := server.answer_batch now sent
    cases passed : Server.accepts origin message with
    | false =>
      have refused := server.handle_refused now passed
      have silent : server.deed now origin message = none := by simp [Server.deed, passed]
      rw [Option.bind_some, silent, snapshot_idle found (by rw [next, refused]) (by rw [mail, refused])]
    | true =>
      obtain ⟨sound, unassigned⟩ := Server.accepts_iff.mp passed
      obtain ⟨store, changed, shape⟩ := server.handle_accepted now passed
      have foreign : origin ≠ .peer := client origin message sent
      let deed : Deed := { here := server.here, origin, now, before := server.holdings, message }
      have original : deed.Original := by
        refine ⟨foreign, sound, unassigned ?_⟩
        cases origin with
        | client _ => rfl
        | peer => exact absurd rfl foreign
      have seated : record.snapshot.held[seat]? = some deed.before := by
        simp [snapshot, found, deed]
      have told : ∀ letter ∈ (server.answer .never now asked).mail.filter fun letter =>
          (record.cluster.network.addressee letter.target).isSome, letter.message = deed.news := by
        intro letter member
        have sent := (List.mem_filter.mp member).1
        rw [mail, shape, Server.letters] at sent
        split at sent
        · cases sent
        · obtain ⟨_, _, rfl⟩ := List.mem_map.mp sent
          rfl
      have step := Snapshot.Step.served seated original told
      apply Relation.ReflTransGen.single
      rw [snapshot_settle, Option.bind_some, Server.deed_accepted passed, next, shape]
      rw [Server.holdings, changed]
      exact step

private theorem read_step (now : UInt64) {letter : Letter} {rest : List Letter} {seat : Nat} {server : Server}
    (first : record.cluster.network.mailbox = letter :: rest)
    (found : record.cluster.servers[seat]? = some server) :
    Snapshot.Step record.snapshot
      (snapshot ((record.sort rest).jot
        ((record.sort rest).cluster.settle seat (server.receive .never now letter.message))
        (server.deed now .peer letter.message))) := by
  have kept : ∀ other ∈ rest, other ∈ record.cluster.network.mailbox := by
    intro other member
    rw [first]
    exact List.mem_cons_of_mem _ member
  have opened : (record.sort rest).cluster.servers[seat]? = some server := found
  rw [server.receive_eq_handle]
  cases passed : Server.accepts .peer letter.message with
  | false =>
    have refused := server.handle_refused now passed
    have silent : server.deed now .peer letter.message = none := by simp [Server.deed, passed]
    rw [silent, snapshot_idle opened (by rw [refused]) (by rw [refused])]
    exact .sorted kept
  | true =>
    obtain ⟨store, changed, shape⟩ := server.handle_accepted now passed
    let deed : Deed := { here := server.here, origin := .peer, now, before := server.holdings, message := letter.message }
    have seated : record.snapshot.held[seat]? = some deed.before := by
      simp [snapshot, found, deed]
    have waited : letter ∈ record.cluster.network.mailbox := by
      rw [first]
      exact List.mem_cons_self
    rw [snapshot_settle, server.handle_quiet now passed, Server.deed_accepted passed, shape, Server.holdings, changed]
    rw [List.filter_nil, List.append_nil]
    exact .received seated rfl waited rfl kept

end Record

namespace Cluster

variable {client : Client} {now : UInt64} {cluster : Cluster}

/-- Every step of a cluster comes down to steps of what is seen of it. -/
theorem step_steps (client : Client) (now : UInt64) (action : Action) (cluster : Cluster) :
    Snapshot.Steps (Record.snapshot { cluster, notes := [] })
      (Record.snapshot
        { cluster := (step client now action cluster).2, notes := deeds client now action cluster }) := by
  have batch {ρ α : Type} (operation : Operation ρ α) (items : List ρ)
      (brings : ∀ node carried origin message, (operation.call node carried).batch = some (origin, message) →
        origin ≠ .peer) :
      Snapshot.Steps (Record.snapshot { cluster, notes := [] })
        (Record.snapshot (client.run (Noted.call Occasion.deed now) operation items { cluster, notes := [] }).2) := by
    refine Client.run_keeps
      (fun record : Record => Snapshot.Steps (Record.snapshot { cluster, notes := [] }) record.snapshot) ?_ .refl
    intro shard carried endpoint record _ _ before
    exact before.trans (Record.call_steps now endpoint record (brings _ _))
  rw [← Noted.step_after Occasion.deed now client action { cluster, notes := [] }]
  cases action with
  | write writes =>
    apply batch .write writes
    intro node carried origin message sent
    cases sent
    exact nofun
  | read reads =>
    apply batch .read reads
    intro node carried origin message sent
    cases sent
  | remove removals =>
    apply batch .remove removals
    intro node carried origin message sent
    cases sent
    exact nofun
  | deliver =>
    refine Noted.deliverWithin_keeps Occasion.deed now
      (fun record : Record => Snapshot.Steps (Record.snapshot { cluster, notes := [] }) record.snapshot) ?_ ?_ _ .refl
    · intro record mailbox fewer before
      exact before.tail (.sorted fewer.subset)
    · intro record letter rest seat server first _ found before
      exact before.tail (Record.read_step now first found)
  | down address => exact .refl
  | up address => exact .refl
  | hang address => exact .refl

private theorem startAll_snapshot {topology : Topology} {setup : Setup} {rest : List Node} {cluster final : Cluster}
    (ran : startAll topology setup rest cluster = .ok final) :
    final.servers.map Server.holdings =
        cluster.servers.map Server.holdings ++ rest.map (fun node => .fresh (setup.identity node)) ∧
      final.network.mailbox = cluster.network.mailbox := by
  induction rest generalizing cluster with
  | nil =>
    cases ran
    exact ⟨(List.append_nil _).symm, rfl⟩
  | cons node rest ih =>
    simp only [startAll, bind, Except.bind] at ran
    split at ran
    · cases ran
    · next server started =>
      obtain ⟨held, mailbox⟩ := ih ran
      have empty : server.holdings = .fresh (setup.identity node) :=
        (Server.start_holdings started).trans (Store.holdings_fresh _)
      constructor
      · rw [held, List.map_append, List.map_singleton, empty, List.append_assoc]
        rfl
      · rw [mailbox]
        simp only
        split <;> rfl

theorem start_snapshot {topology : Topology} {setup : Setup} (started : start topology setup = .ok cluster) :
    Record.snapshot { cluster, notes := [] } = .opening topology setup := by
  obtain ⟨held, mailbox⟩ := startAll_snapshot started
  simp only [Record.snapshot, Snapshot.opening, held, mailbox]
  rfl

namespace Ran

variable {topology : Topology} {setup : Setup} {chronicle : Chronicle}

theorem steps (ran : Ran topology setup chronicle) :
    Snapshot.Steps (.opening topology setup) chronicle.snapshot := by
  induction ran with
  | start started =>
    rw [← start_snapshot started]
    exact .refl
  | @step earlier client now action _ ih =>
    have later := Snapshot.steps_after (step_steps client now action earlier.cluster) earlier.deeds
    simp only [Snapshot.after, Record.snapshot, List.append_nil] at later
    exact ih.trans later

end Ran
end Cluster

namespace Snapshot

variable {before after snapshot : Snapshot} {write : Write} {version : Version}

/-- The message tells of a batch that a client sent. -/
def Tells (deeds : List Deed) (message : Message) : Prop :=
  ∃ source ∈ deeds, source.Original ∧ message = source.news

/-- Every batch comes from a client or tells of one that did, and so does every letter. -/
structure Traced (snapshot : Snapshot) : Prop where
  deeds : ∀ deed ∈ snapshot.deeds, deed.Original ∨ deed.origin = .peer ∧ Tells snapshot.deeds deed.message
  mail : ∀ letter ∈ snapshot.mailbox, Tells snapshot.deeds letter.message

theorem Tells.later {earlier : List Deed} {message : Message} (tells : Tells earlier message) (later : List Deed) :
    Tells (earlier ++ later) message := by
  obtain ⟨source, noted, rest⟩ := tells
  exact ⟨source, List.mem_append_left _ noted, rest⟩

theorem Step.traced (step : Step before after) (traced : Traced before) : Traced after := by
  have earlier (deed : Deed) : ∀ old ∈ before.deeds,
      old.Original ∨ old.origin = .peer ∧ Tells (before.deeds ++ [deed]) old.message := by
    intro old noted
    exact (traced.deeds old noted).imp_right (And.imp_right (·.later [deed]))
  cases step with
  | @served seat deed sent found original told =>
    constructor
    · intro other noted
      rcases List.mem_append.mp noted with old | new
      · exact earlier deed other old
      · rw [List.mem_singleton.mp new]
        exact Or.inl original
    · intro letter waits
      rcases List.mem_append.mp waits with old | new
      · exact (traced.mail letter old).later [deed]
      · exact ⟨deed, List.mem_append_right _ (List.mem_singleton.mpr rfl), original, told letter new⟩
  | @received seat deed letter left found peer waited same kept =>
    constructor
    · intro other noted
      rcases List.mem_append.mp noted with old | new
      · exact earlier deed other old
      · rw [List.mem_singleton.mp new, same]
        have own : deed.origin = .peer := peer
        exact Or.inr ⟨own, (traced.mail letter waited).later [deed]⟩
    · intro other waits
      exact (traced.mail other (kept other waits)).later [deed]
  | sorted kept => exact ⟨traced.deeds, fun other waits => traced.mail other (kept other waits)⟩

theorem Steps.traced (steps : Steps before after) (traced : Traced before) : Traced after := by
  induction steps with
  | refl => exact traced
  | tail _ step ih => exact step.traced ih

/-- A copy that waits or was taken in is a client's write under the version that was minted for it. -/
theorem Tells.copy {deeds : List Deed} {message : Message} (tells : Tells deeds message) {copy : Write}
    (member : copy ∈ message.written) :
    ∃ write version, (write, version) ∈ mintedIn deeds ∧ copy = { write with assigned := some version } := by
  obtain ⟨source, noted, original, rfl⟩ := tells
  obtain ⟨write, version, minted, same⟩ := Deed.copy_minted original.client member
  exact ⟨write, version, minted_mem noted minted, same⟩

theorem Traced.minted_sound (traced : Traced snapshot) (minted : (write, version) ∈ mintedIn snapshot.deeds) :
    write.Sound ∧ write.assigned = none := by
  obtain ⟨deed, noted, own⟩ := List.mem_flatMap.mp minted
  have carried := Deed.written_of_minted own
  rcases traced.deeds deed noted with original | ⟨peer, _⟩
  · exact ⟨original.sound.1 write carried, original.unassigned write carried⟩
  · exact absurd peer (Deed.client_of_minted own)

/-- Whoever takes a write, it is a client's write under the version that was minted for it. -/
theorem Traced.stamped (traced : Traced snapshot) {deed : Deed} (noted : deed ∈ snapshot.deeds)
    (member : (write, version) ∈ deed.before.stamped deed.now deed.message.written) :
    ∃ original, (original, version) ∈ mintedIn snapshot.deeds ∧ original.Sound ∧
      write = { original with assigned := write.assigned } := by
  rcases traced.deeds deed noted with original | ⟨_, tells⟩
  · rw [← Deed.minted_client original.client] at member
    have minted := minted_mem noted member
    exact ⟨write, minted, (traced.minted_sound minted).1, rfl⟩
  · obtain ⟨original, given, minted, rfl⟩ := tells.copy (Holdings.mem_of_stamped member)
    cases Holdings.stamped_assigned member rfl
    exact ⟨original, minted, (traced.minted_sound minted).1, rfl⟩

end Snapshot

/-- What a write is, apart from how it is to be taken. -/
structure Imprint where
  key : String
  data : Bytes
  parents : Option (List Version)
  expiresAt : Option UInt64
  hash : Hash.Blake3.Digest
  deriving DecidableEq, Repr

def Write.imprint (write : Write) : Imprint where
  key := write.key
  data := write.data
  parents := write.parents
  expiresAt := write.expiresAt
  hash := Hash.Blake3.digest write.data

def Value.imprint (value : Value) : Imprint where
  key := value.key
  data := value.data
  parents := some value.parents
  expiresAt := value.expiresAt
  hash := value.hash

theorem Entry.stored_imprint {write : Write} (sound : write.Sound) (version : Version) (now : UInt64) :
    (stored write (write.parents.getD []) version now).imprint = write.imprint := by
  obtain ⟨parents, named⟩ := Option.isSome_iff_exists.mp sound.2
  simp [stored, Value.imprint, Write.imprint, named]

/-- Every value was stored for a write of its key that a client had sent, under the version minted for it. -/
def Founded (deeds : List Deed) (held : Holdings) : Prop :=
  ∀ key, ∀ value ∈ (held.entry key).values, ∃ write, (write, value.version) ∈ mintedIn deeds ∧ write.key = key ∧
    value.imprint = write.imprint

namespace Founded

variable {held : Holdings} {earlier : List Deed}

theorem later (founded : Founded earlier held) (later : List Deed) : Founded (earlier ++ later) held := by
  intro key value member
  obtain ⟨write, minted, rest⟩ := founded key value member
  refine ⟨write, ?_, rest⟩
  rw [mintedIn_append]
  exact List.mem_append_left _ minted

theorem take {deeds : List Deed} (founded : Founded deeds held) (now : UInt64) {message : Message}
    (known : ∀ write version, (write, version) ∈ held.stamped now message.written →
      ∃ original, (original, version) ∈ mintedIn deeds ∧ original.Sound ∧
        write = { original with assigned := write.assigned }) :
    Founded deeds (held.take now message) := by
  intro key
  refine Holdings.take_keeps (fun entry => ∀ value ∈ entry.values, ∃ write, (write, value.version) ∈ mintedIn deeds ∧
    write.key = key ∧ value.imprint = write.imprint) ?_ ?_ (founded key)
  · intro write version entry member same old value inside
    rcases Entry.mem_write inside with kept | ⟨_, rfl⟩
    · exact old value kept
    · obtain ⟨original, minted, sound, equal⟩ := known write version member
      refine ⟨original, minted, ?_, ?_⟩
      · rw [← same, equal]
      · rw [equal]
        exact Entry.stored_imprint sound version now
  · intro removal entry _ _ old value inside
    exact old value (Entry.mem_remove.mp inside).1

end Founded

namespace Snapshot

variable {before after snapshot : Snapshot}

/-- All values are founded, those that servers hold and those that they held when they took a batch. -/
structure Rooted (snapshot : Snapshot) : Prop where
  held : ∀ held ∈ snapshot.held, Founded snapshot.deeds held
  before : ∀ deed ∈ snapshot.deeds, Founded snapshot.deeds deed.before

theorem Rooted.take (rooted : Rooted snapshot) {seat : Nat} {deed : Deed} {mailbox : List Letter}
    (found : snapshot.held[seat]? = some deed.before) (traced : Traced (snapshot.take seat deed mailbox)) :
    Rooted (snapshot.take seat deed mailbox) := by
  have own : Founded (snapshot.deeds ++ [deed]) deed.before := (rooted.held _ (List.mem_of_getElem? found)).later [deed]
  have noted : deed ∈ (snapshot.take seat deed mailbox).deeds := List.mem_append_right _ (List.mem_singleton.mpr rfl)
  constructor
  · intro held member
    rcases List.mem_or_eq_of_mem_set member with old | rfl
    · exact (rooted.held held old).later [deed]
    · exact own.take deed.now fun write version member => traced.stamped noted member
  · intro other member
    rcases List.mem_append.mp member with old | new
    · exact (rooted.before other old).later [deed]
    · rw [List.mem_singleton.mp new]
      exact own

theorem Step.rooted (step : Step before after) (traced : Traced before) (rooted : Rooted before) : Rooted after := by
  have later := step.traced traced
  cases step with
  | served found _ _ => exact rooted.take found later
  | received found _ _ _ _ => exact rooted.take found later
  | sorted _ => exact ⟨rooted.held, rooted.before⟩

theorem Steps.rooted (steps : Steps before after) (traced : Traced before) (rooted : Rooted before) : Rooted after := by
  induction steps with
  | refl => exact rooted
  | tail earlier step ih => exact step.rooted (Steps.traced earlier traced) ih

end Snapshot

namespace Cluster.Ran

variable {topology : Topology} {setup : Setup} {chronicle : Chronicle}

theorem traced (ran : Ran topology setup chronicle) : Snapshot.Traced chronicle.snapshot :=
  Snapshot.Steps.traced ran.steps ⟨fun _ noted => (by cases noted), fun _ waits => (by cases waits)⟩

theorem rooted (ran : Ran topology setup chronicle) : Snapshot.Rooted chronicle.snapshot := by
  have empty : Snapshot.Rooted (.opening topology setup) := by
    constructor
    · intro held member
      obtain ⟨node, _, rfl⟩ := List.mem_map.mp member
      exact fun _ _ inside => by cases inside
    · exact fun _ noted => by cases noted
  exact Snapshot.Steps.rooted ran.steps ⟨fun _ noted => (by cases noted), fun _ waits => (by cases waits)⟩ empty

end Cluster.Ran
end ReplicaRing
