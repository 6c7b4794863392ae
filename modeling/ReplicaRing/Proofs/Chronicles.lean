import ReplicaRing.Proofs.Noting
import ReplicaRing.Proofs.Rings
import ReplicaRing.Proofs.Serving

/-! Runs of a ring, with what a bystander would note down about them: each step with its clock
reading and its reply, and each batch that a server took, with what the server held before. The
notes have no influence on the run. -/

namespace ReplicaRing

/-- A batch that a server took: where, from whom, when, and what the server held before. -/
structure Deed where
  here : Address
  origin : Origin
  now : UInt64
  before : Holdings
  message : Message

namespace Deed

def after (deed : Deed) : Holdings :=
  deed.before.take deed.now deed.message

def news (deed : Deed) : Message :=
  deed.before.news deed.now deed.message

/-- The writes of a client's batch under the versions that were minted for them. -/
def minted (deed : Deed) : List (Write × Version) :=
  match deed.origin with
  | .client _ => deed.before.stamped deed.now deed.message.written
  | .peer => []

end Deed

/-- What is noted down when a server is given a batch. One that is refused leaves no trace. -/
def Server.deed (server : Server) (now : UInt64) (origin : Origin) (message : Message) : Option Deed :=
  if Server.accepts origin message then
    some { here := server.here, origin, now, before := server.holdings, message }
  else none

def Call.batch : Call → Option (Origin × Message)
  | write origin writes => some (origin, .writes writes)
  | remove origin removals => some (origin, .removals removals)
  | _ => none

/-- The batch that a task brings, and whom it is from. -/
def Task.batch : Task → Option (Origin × Message)
  | call asked _ => asked.batch
  | mail message => some (.peer, message)

def Occasion.deed (occasion : Occasion) : Option Deed :=
  occasion.task.batch.bind fun batch => occasion.server.deed occasion.now batch.1 batch.2

theorem Occasion.deed_answering (now : UInt64) (cluster : Cluster) (seat : Nat) (server : Server) (asked : Call) :
    (Noted.answering now cluster seat server asked).deed =
      asked.batch.bind fun batch => server.deed now batch.1 batch.2 := rfl

theorem Occasion.deed_reading (now : UInt64) (cluster : Cluster) (seat : Nat) (server : Server) (letter : Letter) :
    (Noted.reading now cluster seat server letter).deed = server.deed now .peer letter.message := rfl

abbrev Record := Noted Deed

theorem Server.deed_some {server : Server} {now : UInt64} {origin : Origin} {message : Message} {deed : Deed}
    (noted : server.deed now origin message = some deed) :
    accepts origin message = true ∧
      deed = { here := server.here, origin, now, before := server.holdings, message } := by
  unfold Server.deed at noted
  split at noted
  · next accepted => exact ⟨accepted, (Option.some.inj noted).symm⟩
  · cases noted

theorem Server.deed_accepted {server : Server} {now : UInt64} {origin : Origin} {message : Message}
    (accepted : accepts origin message = true) : server.deed now origin message =
      some { here := server.here, origin, now, before := server.holdings, message } :=
  if_pos accepted

theorem Record.call_noted {now : UInt64} {endpoint : Endpoint} {asked : Call} {record final : Record} {answer : Answer}
    (called : Noted.call Occasion.deed now endpoint asked record = (.ok answer, final)) :
    ∃ server : Server, (server.answer .never now asked).answer = answer ∧
      ∀ origin message, asked.batch = some (origin, message) → Server.accepts origin message = true →
        { here := server.here, origin, now, before := server.holdings, message } ∈ final.notes := by
  rcases Noted.call_cases Occasion.deed now endpoint asked record with
    ⟨error, same⟩ | ⟨seat, server, _, _, same⟩
  · cases same.symm.trans called
  · obtain ⟨answered, noted⟩ := Prod.mk.inj (same.symm.trans called)
    refine ⟨server, Except.ok.inj answered, fun origin message batch accepted => ?_⟩
    rw [← noted]
    simp [Occasion.deed_answering, batch, Server.deed_accepted accepted]

theorem Record.call_keeps_deeds {now : UInt64} {endpoint : Endpoint} {asked : Call} {record : Record} {deed : Deed}
    (noted : deed ∈ record.notes) : deed ∈ (Noted.call Occasion.deed now endpoint asked record).2.notes :=
  List.mem_append_left _ noted

/-- What is noted down in one step. -/
def Cluster.deeds (client : Client) (now : UInt64) (action : Action) (cluster : Cluster) : List Deed :=
  (Noted.step Occasion.deed now client action { cluster, notes := [] }).2.notes

structure Turn where
  now : UInt64
  action : Action
  reply : Reply

structure Chronicle where
  cluster : Cluster
  turns : List Turn
  deeds : List Deed

def Chronicle.step (client : Client) (now : UInt64) (action : Action) (chronicle : Chronicle) : Chronicle where
  cluster := (Cluster.step client now action chronicle.cluster).2
  turns := chronicle.turns ++ [{ now, action, reply := (Cluster.step client now action chronicle.cluster).1 }]
  deeds := chronicle.deeds ++ Cluster.deeds client now action chronicle.cluster

/-- Runs of a ring from its start, at any clock readings and in any order. -/
inductive Ring.Reached (ring : Ring) : Chronicle → Prop where
  | start {cluster : Cluster} (started : Cluster.start ring.topology ring.setup = .ok cluster) :
      Reached ring { cluster, turns := [], deeds := [] }
  | step {chronicle : Chronicle} (now : UInt64) (action : Action) (before : Reached ring chronicle) :
      Reached ring (chronicle.step ring.client now action)

/-- Runs of any cluster, whatever its topology is and whichever clients its batches come from. -/
inductive Cluster.Ran (topology : Topology) (setup : Cluster.Setup) : Chronicle → Prop where
  | start {cluster : Cluster} (started : Cluster.start topology setup = .ok cluster) :
      Ran topology setup { cluster, turns := [], deeds := [] }
  | step {chronicle : Chronicle} (client : Client) (now : UInt64) (action : Action)
      (before : Ran topology setup chronicle) : Ran topology setup (chronicle.step client now action)

theorem Ring.Reached.ran {ring : Ring} {chronicle : Chronicle} (reached : ring.Reached chronicle) :
    Cluster.Ran ring.topology ring.setup chronicle := by
  induction reached with
  | start started => exact .start started
  | step now action _ ih => exact .step ring.client now action ih

def Action.writes : Action → List Write
  | write writes => writes
  | _ => []

def Action.removals : Action → List Removal
  | remove removals => removals
  | _ => []

/-- A batch that holds nothing but items of a step. -/
def Action.Offers (action : Action) (message : Message) : Prop :=
  (∀ write ∈ message.written, write ∈ action.writes) ∧ ∀ removal ∈ message.removed, removal ∈ action.removals

namespace Turn

/-- The writes that a client was told of, with their versions. -/
def grants (turn : Turn) : List (Write × Version) :=
  match turn.reply with
  | .written (.ok results) =>
    (turn.action.writes.zip results).filterMap fun pair => pair.2.version.map fun version => (pair.1, version)
  | _ => []

def removed (turn : Turn) : List Removal :=
  match turn.reply with
  | .removed (.ok _) => turn.action.removals
  | _ => []

end Turn

namespace Cluster

variable {client : Client} {now : UInt64} {action : Action} {cluster : Cluster}

private def Told (client : Client) (now : UInt64) (action : Action) (record : Record) : Prop :=
  ∀ deed ∈ record.notes, deed.now = now ∧ action.Offers deed.message ∧
    ∃ shard, deed.origin = .client (client.nodeOf shard)

private theorem call_told {endpoint : Endpoint} {asked : Call} {record : Record}
    (batch : ∀ origin message, asked.batch = some (origin, message) →
      action.Offers message ∧ ∃ shard, origin = .client (client.nodeOf shard))
    (before : Told client now action record) :
    Told client now action (Noted.call Occasion.deed now endpoint asked record).2 := by
  intro deed noted
  rcases Noted.call_cases Occasion.deed now endpoint asked record with
    ⟨error, same⟩ | ⟨seat, server, _, _, same⟩
  · rw [same] at noted
    exact before deed noted
  · rw [same] at noted
    rcases List.mem_append.mp noted with old | new
    · exact before deed old
    · obtain ⟨⟨origin, message⟩, sent, made⟩ := Option.bind_eq_some_iff.mp (Option.mem_toList.mp new)
      obtain ⟨_, rfl⟩ := Server.deed_some made
      exact ⟨rfl, batch origin message sent⟩

private theorem run_told {ρ α : Type} (operation : Operation ρ α) (items : List ρ)
    (brings : ∀ shard carried origin message, (∀ item ∈ carried, item ∈ items) →
      (operation.call (client.nodeOf shard) carried).batch = some (origin, message) →
      action.Offers message ∧ origin = .client (client.nodeOf shard)) :
    Told client now action (client.run (Noted.call Occasion.deed now) operation items { cluster, notes := [] }).2 := by
  have calls : client.CallsKeep (Noted.call Occasion.deed now) operation items (Told client now action) := by
    intro shard carried endpoint record carries _ before
    refine call_told (fun origin message batch => ?_) before
    obtain ⟨offers, same⟩ := brings shard carried origin message (fun item member => (carries item member).1) batch
    exact ⟨offers, shard, same⟩
  exact Client.run_keeps _ calls fun _ member => by cases member

private theorem deliverWithin_told (now : UInt64) (count : Nat) (cluster : Cluster) :
    ∀ deed ∈ (Noted.deliverWithin Occasion.deed now count { cluster, notes := [] }).2.notes,
      deed.now = now ∧ deed.origin = .peer := by
  refine Noted.deliverWithin_keeps Occasion.deed now
    (fun record => ∀ deed ∈ record.notes, deed.now = now ∧ deed.origin = .peer)
    (fun _ _ _ before => before) ?_ count fun _ member => by cases member
  intro record letter rest seat server _ _ _ before deed noted
  rcases List.mem_append.mp noted with old | new
  · exact before deed old
  · obtain ⟨_, rfl⟩ := Server.deed_some (Option.mem_toList.mp new)
    exact ⟨rfl, rfl⟩

/-- A client's step is noted down as calls that carry its items. -/
theorem deeds_told {deed : Deed} (noted : deed ∈ deeds client now action cluster) :
    deed.now = now ∧ (deed.origin = .peer ∨
      action.Offers deed.message ∧ ∃ shard, deed.origin = .client (client.nodeOf shard)) := by
  cases action with
  | write writes =>
    refine (run_told .write writes (fun shard carried origin message inside batch => ?_) deed noted).imp_right Or.inr
    cases batch
    exact ⟨⟨inside, fun removal member => by cases member⟩, rfl⟩
  | read reads =>
    refine (run_told .read reads (fun shard carried origin message inside batch => ?_) deed noted).imp_right Or.inr
    cases batch
  | remove removals =>
    refine (run_told .remove removals (fun shard carried origin message inside batch => ?_) deed noted).imp_right Or.inr
    cases batch
    exact ⟨⟨fun write member => (by cases member), inside⟩, rfl⟩
  | deliver => exact (deliverWithin_told now _ cluster deed noted).imp_right Or.inl
  | down _ => cases noted
  | up _ => cases noted
  | hang _ => cases noted

private theorem writes_lasting (client : Client) (now : UInt64) (writes : List Write) :
    client.Lasting (Noted.call Occasion.deed now) .write writes fun shard carried found record =>
      ∃ deed ∈ record.notes, deed.origin = .client (client.nodeOf shard) ∧ deed.message = .writes carried ∧
        found = deed.before.results deed.now carried where
  made _ called content := by
    obtain ⟨server, rfl, notes⟩ := Record.call_noted called
    obtain ⟨accepted, rfl⟩ := Server.answer_written content
    exact ⟨_, notes _ _ rfl accepted, rfl, rfl, rfl⟩
  kept := by
    intro shard carried found endpoint call record known
    obtain ⟨deed, noted, rest⟩ := known
    exact ⟨deed, Record.call_keeps_deeds noted, rest⟩

private theorem removals_lasting (client : Client) (now : UInt64) (removals : List Removal) :
    client.Lasting (Noted.call Occasion.deed now) .remove removals fun shard carried _ record =>
      ∃ deed ∈ record.notes, deed.origin = .client (client.nodeOf shard) ∧ deed.message = .removals carried where
  made _ called content := by
    obtain ⟨server, rfl, notes⟩ := Record.call_noted called
    obtain ⟨accepted, _⟩ := Server.answer_removed content
    exact ⟨_, notes _ _ rfl accepted, rfl, rfl⟩
  kept := by
    intro shard carried found endpoint call record known
    obtain ⟨deed, noted, rest⟩ := known
    exact ⟨deed, Record.call_keeps_deeds noted, rest⟩

theorem run_outcome {ρ α : Type} {operation : Operation ρ α} {items : List ρ} {answers : List α}
    (plain : (client.run (Cluster.call now) operation items cluster).1 = .ok answers) :
    (client.run (Noted.call Occasion.deed now) operation items { cluster, notes := [] }).1 = .ok answers := by
  have same : (client.run (Noted.call Occasion.deed now) operation items { cluster, notes := [] }).map id Noted.cluster =
      client.run (Cluster.call now) operation items cluster :=
    Client.run_forgets (Noted.call_forgets Occasion.deed now) items { cluster, notes := [] }
  exact (congrArg Prod.fst same).trans plain

/-- A version that a client is told was minted for its write in one of the calls. -/
theorem deeds_granted {write : Write} {version : Version}
    (granted : (write, version) ∈ Turn.grants { now, action, reply := (step client now action cluster).1 }) :
    ∃ deed ∈ deeds client now action cluster, (write, version) ∈ deed.minted := by
  obtain ⟨results, result, replied, paired, accepted⟩ : ∃ results result,
      (step client now action cluster).1 = .written (.ok results) ∧ (write, result) ∈ action.writes.zip results ∧
        result.version = some version := by
    simp only [Turn.grants] at granted
    split at granted
    · next results replied =>
      obtain ⟨⟨first, result⟩, paired, same⟩ := List.mem_filterMap.mp granted
      obtain ⟨given, accepted, equal⟩ := Option.map_eq_some_iff.mp same
      cases equal
      exact ⟨results, result, replied, paired, accepted⟩
    · cases granted
  cases action with
  | write writes =>
    have ran := run_outcome (Reply.written.inj replied)
    obtain ⟨shard, carried, found, _, ⟨deed, noted, origin, message, rfl⟩, inside⟩ :=
      Client.run_answered (writes_lasting client now writes) (Prod.ext ran rfl) paired
    refine ⟨deed, noted, ?_⟩
    rw [Deed.minted, origin, message]
    exact Holdings.stamped_of_result inside accepted
  | _ => cases paired

theorem deeds_removed {removal : Removal}
    (removed : removal ∈ Turn.removed { now, action, reply := (step client now action cluster).1 }) :
    ∃ deed ∈ deeds client now action cluster, deed.origin = .client (client.nodeOf (client.shardOf removal.key)) ∧
      removal ∈ deed.message.removed := by
  obtain ⟨flags, replied, member⟩ : ∃ flags, (step client now action cluster).1 = .removed (.ok flags) ∧
      removal ∈ action.removals := by
    simp only [Turn.removed] at removed
    split at removed
    · next flags replied => exact ⟨flags, replied, removed⟩
    · cases removed
  cases action with
  | remove removals =>
    have ran := run_outcome (Reply.removed.inj replied)
    obtain ⟨flag, paired⟩ : ∃ flag, (removal, flag) ∈ removals.zip flags := by
      have counted : flags.length = removals.length := Client.run_length (Prod.ext ran rfl)
      have listed : removal ∈ (removals.zip flags).map (·.1) := by
        rw [List.map_fst_zip (Nat.le_of_eq counted.symm)]
        exact member
      obtain ⟨⟨_, flag⟩, paired, rfl⟩ := List.mem_map.mp listed
      exact ⟨flag, paired⟩
    obtain ⟨shard, carried, found, carries, ⟨deed, noted, origin, message⟩, inside⟩ :=
      Client.run_answered (removals_lasting client now removals) (Prod.ext ran rfl) paired
    have own := (List.of_mem_zip inside).1
    have owner : client.shardOf removal.key = shard := (carries removal own).2
    exact ⟨deed, noted, by rw [owner, origin], by rw [message]; exact own⟩
  | _ => cases member

end Cluster
end ReplicaRing
