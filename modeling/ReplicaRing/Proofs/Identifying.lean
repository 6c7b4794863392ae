import Mathlib.Data.List.Perm.Basic
import Mathlib.Data.List.Perm.Subperm
import ReplicaRing.Proofs.Minting
import ReplicaRing.Proofs.Roaming

/-! A version stands for one write wherever it turns up. No client is told of it twice, and every value and
every copy that bears it agrees on what was written. Addresses do not matter for this, only that no two stores
mint under one identity. -/

namespace ReplicaRing

namespace Client

variable {α β : Type}

private theorem set_subperm (pick : α → Option β) (slots : List (Option α)) (position : Nat) (answer : α) :
    ((slots.set position (some answer)).filterMap (·.bind pick)).Subperm
      (slots.filterMap (·.bind pick) ++ (pick answer).toList) := by
  by_cases inside : position < slots.length
  · have moved := (List.set_perm_cons_eraseIdx inside (some answer)).filterMap (·.bind pick)
    have rest : ((slots.eraseIdx position).filterMap (·.bind pick)).Subperm (slots.filterMap (·.bind pick)) :=
      ((List.eraseIdx_sublist slots position).filterMap _).subperm
    refine moved.subperm.trans (List.Subperm.trans ?_ (List.perm_append_comm.subperm))
    have split : (some answer :: slots.eraseIdx position).filterMap (·.bind pick) =
        (pick answer).toList ++ (slots.eraseIdx position).filterMap (·.bind pick) := by
      cases picked : pick answer <;> simp [picked]
    rw [split]
    exact (List.subperm_append_left _).mpr rest
  · rw [List.set_eq_of_length_le (Nat.le_of_not_lt inside)]
    exact (List.sublist_append_left _ _).subperm

theorem scatter_subperm (pick : α → Option β) (slots : List (Option α)) (positions : List Nat) (answers : List α) :
    ((scatter slots positions answers).filterMap (·.bind pick)).Subperm
      (slots.filterMap (·.bind pick) ++ answers.filterMap pick) := by
  induction positions generalizing slots answers with
  | nil => exact (List.sublist_append_left _ _).subperm
  | cons position positions ih =>
    cases answers with
    | nil => exact (List.sublist_append_left _ _).subperm
    | cons answer answers =>
      have first := (List.subperm_append_right (answers.filterMap pick)).mpr (set_subperm pick slots position answer)
      have split : (answer :: answers).filterMap pick = (pick answer).toList ++ answers.filterMap pick := by
        cases picked : pick answer <;> simp [picked]
      rw [split, ← List.append_assoc]
      exact (ih _ answers).trans first

end Client

theorem Holdings.results_sublist (now : UInt64) (held : Holdings) (writes : List Write) :
    ((held.results now writes).filterMap (·.version)).Sublist ((held.stamped now writes).map (·.2)) := by
  induction writes generalizing held with
  | nil => exact .slnil
  | cons write writes ih =>
    simp only [results, stamped, List.map_cons, List.filterMap_cons]
    cases accepted : (held.result now write).version with
    | none => exact (ih _).cons _
    | some version =>
      rw [Entry.write_version_eq accepted]
      exact (ih _).cons_cons _

theorem Record.call_written {now : UInt64} {endpoint : Endpoint} {origin : Origin} {writes : List Write}
    {record final : Record} {answer : Answer} {results : List Written}
    (called : Noted.call Occasion.deed now endpoint (.write origin writes) record = (.ok answer, final))
    (content : Operation.write.content answer = some results) :
    ∃ deed : Deed, deed.origin = origin ∧ deed.message = .writes writes ∧
      results = deed.before.results deed.now writes ∧ final.notes = record.notes ++ [deed] := by
  rcases Noted.call_cases Occasion.deed now endpoint (.write origin writes) record with
    ⟨error, same⟩ | ⟨seat, server, _, _, same⟩
  · cases same.symm.trans called
  · obtain ⟨answered, ended⟩ := Prod.mk.inj (same.symm.trans called)
    obtain rfl := Except.ok.inj answered
    obtain ⟨accepted, told⟩ := Server.answer_written content
    refine ⟨{ here := server.here, origin, now, before := server.holdings, message := .writes writes }, rfl, rfl, told, ?_⟩
    rw [← ended]
    simp only [Noted.jot_notes, Occasion.deed_answering, Call.batch, Option.bind_some, Server.deed_accepted accepted,
      Option.toList_some]

namespace Cluster

private theorem written_subperm {client : Client} {now : UInt64} {writes : List Write} {cluster : Cluster}
    {results : List Written} (ran : (client.run (Cluster.call now) .write writes cluster).1 = .ok results) :
    (results.filterMap (·.version)).Subperm ((mintedIn (deeds client now (.write writes) cluster)).map (·.2)) := by
  have told := Client.run_fills
    (fun slots (record : Record) =>
      (slots.filterMap (·.bind Written.version)).Subperm ((mintedIn record.notes).map (·.2)))
    ?kept ?fills ?empty (Prod.ext (run_outcome ran) rfl)
  · have all : (results.map some).filterMap (·.bind Written.version) = results.filterMap (·.version) := by
      simp [List.filterMap_map]
    rw [← all]
    exact told
  case kept =>
    intro slots shard carried endpoint record _ _ before
    refine before.trans (List.Sublist.subperm ?_)
    simp only [Noted.call, Noted.jot_notes, mintedIn_append, List.map_append]
    exact List.sublist_append_left _ _
  case fills =>
    intro portion _ endpoint record answer found final slots called content before
    obtain ⟨deed, origin, message, rfl, noted⟩ := Record.call_written called content
    have own : deed.minted = deed.before.stamped deed.now (Client.members writes portion.positions) := by
      rw [Deed.minted, origin, message]
      rfl
    rw [noted, mintedIn_append, mintedIn_singleton, own, List.map_append]
    refine (Client.scatter_subperm Written.version slots portion.positions _).trans (before.append ?_)
    exact (Holdings.results_sublist _ _ _).subperm
  case empty =>
    have blank : (List.replicate writes.length (none : Option Written)).filterMap (·.bind Written.version) = [] := by
      simp
    rw [blank]
    exact List.nil_subperm

/-- The versions that clients are told of in one step were minted in it, each of them for one write. -/
theorem grants_subperm {client : Client} {now : UInt64} {action : Action} {cluster : Cluster} :
    ((Turn.grants { now, action, reply := (step client now action cluster).1 }).map (·.2)).Subperm
      ((mintedIn (deeds client now action cluster)).map (·.2)) := by
  cases action with
  | write writes =>
    cases ran : (client.run (Cluster.call now) .write writes cluster).1 with
    | error error =>
      have silent : Turn.grants { now, action := .write writes, reply := (step client now (.write writes) cluster).1 } = [] := by
        simp [Turn.grants, step, Client.write, ran]
      rw [silent]
      exact List.nil_subperm
    | ok results =>
      have counted : results.length = writes.length := Client.run_length (Prod.ext ran rfl)
      have told : (Turn.grants { now, action := .write writes, reply := (step client now (.write writes) cluster).1 }).map
          (·.2) = ((writes.zip results).map (·.2)).filterMap (·.version) := by
        simp only [Turn.grants, step, Client.write, ran, Action.writes, List.map_filterMap, List.filterMap_map]
        congr 1
        funext pair
        cases given : pair.2.version <;> simp [given]
      rw [told, List.map_snd_zip (Nat.le_of_eq counted)]
      exact written_subperm ran
  | _ => exact List.nil_subperm

end Cluster

namespace Cluster.Ran

variable {topology : Topology} {setup : Setup} {chronicle : Chronicle}

theorem granted_subperm (ran : Ran topology setup chronicle) :
    ((chronicle.turns.flatMap Turn.grants).map (·.2)).Subperm ((mintedIn chronicle.deeds).map (·.2)) := by
  induction ran with
  | start => exact List.nil_subperm
  | step client now action _ ih =>
    simp only [Chronicle.step, List.flatMap_append, List.flatMap_cons, List.flatMap_nil, List.append_nil, List.map_append,
      mintedIn_append]
    exact ih.append grants_subperm

end Cluster.Ran

/-- What the store of one identity minted. -/
def mintedBy (deeds : List Deed) (id : StoreId) : List (Write × Version) :=
  (mintedIn deeds).filter (·.2.store = id)

theorem mintedBy_append (earlier later : List Deed) (id : StoreId) :
    mintedBy (earlier ++ later) id = mintedBy earlier id ++ mintedBy later id := by
  simp [mintedBy]

namespace Snapshot

variable {before after snapshot : Snapshot} {ids : List StoreId}

/-- Stores of distinct identities count on from one, and what was minted stays within the count. -/
structure Numbered (ids : List StoreId) (snapshot : Snapshot) : Prop where
  ids : snapshot.held.map (·.id) = ids
  next : ∀ held ∈ snapshot.held, held.next = 1 + UInt64.ofNat (mintedBy snapshot.deeds held.id).length
  counted : ∀ version ∈ (mintedIn snapshot.deeds).map (·.2),
    version.number.toNat ≤ (mintedBy snapshot.deeds version.store).length
  distinct : ((mintedIn snapshot.deeds).map (·.2)).Nodup

def Bounded (ids : List StoreId) (deeds : List Deed) : Prop :=
  ∀ id ∈ ids, (mintedBy deeds id).length < 2 ^ 64

theorem Bounded.of_append {earlier later : List Deed} (bounded : Bounded ids (earlier ++ later)) : Bounded ids earlier := by
  intro id listed
  have total := bounded id listed
  rw [mintedBy_append, List.length_append] at total
  omega

/-- A batch of a client mints the next numbers of its store, and one that tells of it mints none. -/
theorem Traced.mints (traced : Traced snapshot) {deed : Deed} (noted : deed ∈ snapshot.deeds) :
    deed.after.next = deed.before.next + UInt64.ofNat deed.minted.length ∧
      deed.minted.map (·.2) = (List.range deed.minted.length).map fun index =>
        { store := deed.before.id, number := deed.before.next + UInt64.ofNat index } := by
  rcases traced.deeds deed noted with original | ⟨peer, tells⟩
  · exact Deed.minted_next original.client original.unassigned
  · have assigned : ∀ copy ∈ deed.message.written, copy.assigned.isSome = true := by
      intro copy member
      obtain ⟨_, _, _, rfl⟩ := tells.copy member
      rfl
    rw [Deed.minted_peer peer]
    exact ⟨(Holdings.take_next_assigned assigned).trans (UInt64.add_zero _).symm, rfl⟩

private theorem mintedBy_singleton {deed : Deed} (own : ∀ version ∈ deed.minted.map (·.2), version.store = deed.before.id)
    (id : StoreId) : mintedBy [deed] id = if id = deed.before.id then deed.minted else [] := by
  rw [mintedBy, mintedIn_singleton]
  split
  · next same =>
    apply List.filter_eq_self.mpr
    intro pair member
    exact decide_eq_true ((own pair.2 (List.mem_map_of_mem member)).trans same.symm)
  · next different =>
    apply List.filter_eq_nil_iff.mpr
    intro pair member home
    have equal := of_decide_eq_true home
    exact different (equal.symm.trans (own pair.2 (List.mem_map_of_mem member)))

private theorem Numbered.seat_unique (numbered : Numbered ids snapshot) (identified : ids.Nodup) {first second : Nat}
    {held other : Holdings} (here : snapshot.held[first]? = some held) (there : snapshot.held[second]? = some other)
    (same : held.id = other.id) : first = second := by
  have place {seat : Nat} {held : Holdings} (found : snapshot.held[seat]? = some held) : ids[seat]? = some held.id := by
    rw [← numbered.ids, List.getElem?_map, found]
    rfl
  have inside := (List.getElem?_eq_some_iff.mp (place here)).1
  apply (List.getElem?_inj inside identified).mp
  rw [place here, place there, same]

theorem Numbered.take (numbered : Numbered ids snapshot) (identified : ids.Nodup) {seat : Nat} {deed : Deed}
    {mailbox : List Letter} (found : snapshot.held[seat]? = some deed.before)
    (traced : Traced (snapshot.take seat deed mailbox)) (bounded : Bounded ids (snapshot.deeds ++ [deed])) :
    Numbered ids (snapshot.take seat deed mailbox) := by
  have noted : deed ∈ (snapshot.take seat deed mailbox).deeds := List.mem_append_right _ (List.mem_singleton.mpr rfl)
  obtain ⟨next, versions⟩ := traced.mints noted
  have own : ∀ version ∈ deed.minted.map (·.2), version.store = deed.before.id := by
    intro version member
    rw [versions] at member
    obtain ⟨_, _, rfl⟩ := List.mem_map.mp member
    rfl
  have listed : deed.before.id ∈ ids := by
    rw [← numbered.ids]
    exact List.mem_map_of_mem (List.mem_of_getElem? found)
  have total := bounded _ listed
  rw [mintedBy_append, mintedBy_singleton own, if_pos rfl, List.length_append] at total
  obtain ⟨distinct, numbers⟩ := next_versions deed.before.id total
  rw [numbered.next _ (List.mem_of_getElem? found)] at next versions
  rw [← versions] at distinct numbers
  constructor
  · obtain ⟨inside, same⟩ := List.getElem?_eq_some_iff.mp found
    rw [Snapshot.take, List.map_set, Deed.after, Holdings.take_id, ← same, ← List.map_set, List.set_getElem_self]
    exact numbered.ids
  · intro held member
    obtain ⟨other, stands⟩ := List.mem_iff_getElem?.mp member
    rw [Snapshot.take, List.getElem?_set] at stands
    rw [Snapshot.take, mintedBy_append, mintedBy_singleton own, List.length_append]
    split at stands
    · split at stands
      · cases stands
        rw [next, Deed.after, Holdings.take_id, if_pos rfl, UInt64.ofNat_add, UInt64.add_assoc]
      · cases stands
    · next different =>
      -- a store at another seat has another identity, so its count stays as it was
      have foreign : held.id ≠ deed.before.id := by
        intro same
        exact different (numbered.seat_unique identified found stands same.symm)
      rw [if_neg foreign]
      exact numbered.next held (List.mem_of_getElem? stands)
  · intro version member
    rw [Snapshot.take, mintedIn_append, mintedIn_singleton, List.map_append] at member
    rw [Snapshot.take, mintedBy_append, mintedBy_singleton own, List.length_append]
    rcases List.mem_append.mp member with old | new
    · have below := numbered.counted version old
      omega
    · obtain ⟨store, _, below⟩ := numbers version new
      rw [store, if_pos rfl]
      exact below
  · rw [Snapshot.take, mintedIn_append, mintedIn_singleton, List.map_append]
    apply nodup_next numbered.distinct distinct
    · intro version old store
      exact store ▸ numbered.counted version old
    · intro version new
      exact ⟨(numbers version new).1, (numbers version new).2.1⟩

theorem Step.numbered (step : Step before after) (identified : ids.Nodup) (traced : Traced before)
    (numbered : Numbered ids before) (bounded : Bounded ids after.deeds) : Numbered ids after := by
  have later := step.traced traced
  cases step with
  | served found _ _ => exact numbered.take identified found later bounded
  | received found _ _ _ _ => exact numbered.take identified found later bounded
  | sorted _ => exact ⟨numbered.ids, numbered.next, numbered.counted, numbered.distinct⟩

theorem Step.grown (step : Step before after) : ∃ later, after.deeds = before.deeds ++ later := by
  cases step with
  | served => exact ⟨_, rfl⟩
  | received => exact ⟨_, rfl⟩
  | sorted => exact ⟨[], (List.append_nil _).symm⟩

theorem Steps.numbered (steps : Steps before after) (identified : ids.Nodup) (traced : Traced before)
    (numbered : Numbered ids before) (bounded : Bounded ids after.deeds) : Numbered ids after := by
  induction steps with
  | refl => exact numbered
  | tail earlier step ih =>
    obtain ⟨_, grown⟩ := step.grown
    have smaller := Bounded.of_append (grown ▸ bounded)
    exact step.numbered identified (Steps.traced earlier traced) (ih smaller) bounded

theorem Numbered.unique (numbered : Numbered ids snapshot) {first second : Write} {version : Version}
    (left : (first, version) ∈ mintedIn snapshot.deeds) (right : (second, version) ∈ mintedIn snapshot.deeds) :
    first = second :=
  congrArg Prod.fst (List.inj_on_of_nodup_map numbered.distinct left right rfl)

end Snapshot

/-- A value that a server holds bears the version, or a copy that is on its way. -/
def Cluster.Bears (cluster : Cluster) (version : Version) (imprint : Imprint) : Prop :=
  (∃ server ∈ cluster.servers, ∃ key, ∃ value ∈ (server.store.table.entry key).values,
      value.version = version ∧ value.imprint = imprint) ∨
    ∃ letter ∈ cluster.network.mailbox, ∃ copy ∈ letter.message.written,
      copy.assigned = some version ∧ copy.imprint = imprint

namespace Cluster.Ran

variable {topology : Topology} {setup : Setup} {chronicle : Chronicle}

theorem numbered (ran : Ran topology setup chronicle) (identified : (topology.nodes.map setup.identity).Nodup)
    (bounded : Snapshot.Bounded (topology.nodes.map setup.identity) chronicle.deeds) :
    Snapshot.Numbered (topology.nodes.map setup.identity) chronicle.snapshot := by
  apply Snapshot.Steps.numbered ran.steps identified
  · exact ⟨fun _ noted => (by cases noted), fun _ waits => (by cases waits)⟩
  · constructor
    · simp [Snapshot.opening, Holdings.fresh]
    · intro held member
      obtain ⟨node, _, rfl⟩ := List.mem_map.mp member
      rfl
    · exact fun _ minted => by cases minted
    · exact List.nodup_nil
  · exact bounded

theorem borne_minted (ran : Ran topology setup chronicle) {version : Version} {imprint : Imprint}
    (borne : chronicle.cluster.Bears version imprint) :
    ∃ write, (write, version) ∈ mintedIn chronicle.deeds ∧ imprint = write.imprint := by
  rcases borne with ⟨server, seated, key, value, stored, rfl, rfl⟩ | ⟨letter, waits, copy, carried, assigned, rfl⟩
  · obtain ⟨write, minted, _, same⟩ := ran.rooted.held _ (List.mem_map_of_mem seated) key value stored
    exact ⟨write, minted, same⟩
  · obtain ⟨write, given, minted, rfl⟩ := (ran.traced.mail letter waits).copy carried
    cases assigned
    exact ⟨write, minted, rfl⟩

/-- No version is acknowledged twice. All values and copies that bear it agree on what was written, and it is
what the client wrote to whom it was acknowledged. -/
theorem version_identifies_write (ran : Ran topology setup chronicle)
    (identified : (topology.nodes.map setup.identity).Nodup)
    (bounded : ∀ node ∈ topology.nodes, (mintedBy chronicle.deeds (setup.identity node)).length < 2 ^ 64) :
    ((chronicle.turns.flatMap Turn.grants).map (·.2)).Nodup ∧
      (∀ version first second, chronicle.cluster.Bears version first → chronicle.cluster.Bears version second →
        first = second) ∧
      ∀ turn ∈ chronicle.turns, ∀ write version imprint, (write, version) ∈ turn.grants →
        chronicle.cluster.Bears version imprint → imprint = write.imprint := by
  have below : Snapshot.Bounded (topology.nodes.map setup.identity) chronicle.deeds := by
    intro id listed
    obtain ⟨node, member, rfl⟩ := List.mem_map.mp listed
    exact bounded node member
  have numbered := ran.numbered identified below
  refine ⟨?_, ?_, ?_⟩
  · obtain ⟨told, permuted, inside⟩ := ran.granted_subperm
    exact permuted.nodup (inside.nodup numbered.distinct)
  · intro version first second left right
    obtain ⟨write, minted, rfl⟩ := ran.borne_minted left
    obtain ⟨other, again, rfl⟩ := ran.borne_minted right
    rw [numbered.unique minted again]
  · intro turn taken write version imprint granted borne
    obtain ⟨other, minted, rfl⟩ := ran.borne_minted borne
    rw [numbered.unique minted (ran.granted_minted taken granted)]

/-- A write that is stored on two machines, while its copy for the third one waits. -/
def scattered : Chronicle :=
  .play .trio
    [(0, .down { sync := ⟨"tcp://c"⟩, async := ⟨"queue://c"⟩ }),
     (0, .write [.lasting "k3" [1] []]),
     (0, .write [.lasting "k3" [2] [{ store := .ofName "a", number := 1 }]]),
     (0, .deliver)]

theorem scattered_identified :
    ((scattered.turns.flatMap Turn.grants).map (·.2)).Nodup ∧
      (∃ imprint, scattered.cluster.Bears { store := .ofName "a", number := 2 } imprint) ∧
      ∀ imprint, scattered.cluster.Bears { store := .ofName "a", number := 2 } imprint →
        imprint = (Write.lasting "k3" [2] [{ store := .ofName "a", number := 1 }]).imprint := by
  have ran : Ran Ring.trio.topology Ring.trio.setup scattered := (Ring.Reached.play .trio _).ran
  have identified : (Ring.trio.topology.nodes.map Ring.trio.setup.identity).Nodup := by decide +kernel
  have bounded : ∀ node ∈ Ring.trio.topology.nodes,
      (mintedBy scattered.deeds (Ring.trio.setup.identity node)).length < 2 ^ 64 := by decide +kernel
  obtain ⟨distinct, _, told⟩ := version_identifies_write ran identified bounded
  have granted : ∃ turn ∈ scattered.turns, (Write.lasting "k3" [2] [{ store := .ofName "a", number := 1 }],
      ({ store := .ofName "a", number := 2 } : Version)) ∈ turn.grants := by decide +kernel
  have waits : ∃ letter ∈ scattered.cluster.network.mailbox, ∃ copy ∈ letter.message.written,
      copy.assigned = some { store := .ofName "a", number := 2 } := by decide +kernel
  obtain ⟨turn, taken, member⟩ := granted
  obtain ⟨letter, waiting, copy, carried, assigned⟩ := waits
  refine ⟨distinct, ⟨copy.imprint, Or.inr ⟨letter, waiting, copy, carried, assigned, rfl⟩⟩, ?_⟩
  exact fun imprint borne => told turn taken _ _ imprint member borne

end Cluster.Ran
end ReplicaRing
