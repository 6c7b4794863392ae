import ReplicaRing.Proofs.Framing
import ReplicaRing.Proofs.Mailing

/-! Mail in the course of a run. Letters to machines that are down go on waiting in the order in which they came. So
every letter that was posted is applied once or waits, and none overtakes another one to the same endpoint, however
machines go down, hang and come back. -/

namespace ReplicaRing

def lettersTo (endpoint : Endpoint) (letters : List Letter) : List Letter :=
  letters.filter (·.target = endpoint)

@[simp] theorem lettersTo_append (endpoint : Endpoint) (earlier later : List Letter) :
    lettersTo endpoint (earlier ++ later) = lettersTo endpoint earlier ++ lettersTo endpoint later := by
  simp only [lettersTo, List.filter_append]

theorem lettersTo_filter {endpoint : Endpoint} {keep : Letter → Bool} {all : Bool}
    (alike : ∀ letter : Letter, letter.target = endpoint → keep letter = all) (letters : List Letter) :
    lettersTo endpoint (letters.filter keep) = if all then lettersTo endpoint letters else [] := by
  rw [lettersTo, lettersTo, List.filter_filter]
  cases all with
  | true =>
    refine List.filter_congr fun letter _ => ?_
    by_cases bound : letter.target = endpoint
    · rw [alike letter bound, Bool.and_true]
    · simp [bound]
  | false =>
    simp only [Bool.false_eq_true, if_false, List.filter_eq_nil_iff, Bool.and_eq_true, decide_eq_true_eq, not_and]
    intro letter _ bound
    rw [alike letter bound]
    exact Bool.false_ne_true

theorem lettersTo_parted (down : List Endpoint) (endpoint : Endpoint) (letters : List Letter) :
    lettersTo endpoint (letters.filter (·.target ∉ down)) ++ lettersTo endpoint (letters.filter (·.target ∈ down)) =
      lettersTo endpoint letters := by
  have goes (letter : Letter) (bound : letter.target = endpoint) :
      decide (letter.target ∉ down) = decide (endpoint ∉ down) := by rw [bound]
  have waits (letter : Letter) (bound : letter.target = endpoint) :
      decide (letter.target ∈ down) = decide (endpoint ∈ down) := by rw [bound]
  rw [lettersTo_filter goes, lettersTo_filter waits]
  by_cases away : endpoint ∈ down
  · simp [away]
  · simp [away]

def Reply.applied : Reply → List Letter
  | delivered letters => letters
  | _ => []

def Task.isMail : Task → Bool
  | mail _ => true
  | call _ _ => false

namespace Ledger

/-- Runs of a cluster, with all letters that deliveries have applied. -/
inductive Delivered (topology : Topology) (setup : Cluster.Setup) : Ledger → List Letter → Prop where
  | start {cluster : Cluster} (started : Cluster.start topology setup = .ok cluster) :
      Delivered topology setup { cluster, notes := [] } []
  | call {ledger : Ledger} {letters : List Letter} (now : UInt64) (endpoint : Endpoint) (asked : Call)
      (before : Delivered topology setup ledger letters) :
      Delivered topology setup (Noted.call Occasion.handled now endpoint asked ledger).2 letters
  | step {ledger : Ledger} {letters : List Letter} (client : Client) (now : UInt64) (action : Action)
      (before : Delivered topology setup ledger letters) :
      Delivered topology setup (Noted.step Occasion.handled now client action ledger).2
        (letters ++ (Cluster.step client now action ledger.cluster).1.applied)

variable {topology : Topology} {setup : Cluster.Setup} {ledger : Ledger} {letters : List Letter}

theorem Delivered.kept (run : Delivered topology setup ledger letters) : Kept topology setup ledger := by
  induction run with
  | start started => exact .start started
  | call now endpoint asked _ ih => exact .call now endpoint asked ih
  | step client now action _ ih => exact .step client now action ih

/-- Each letter that was applied was read once, in turn, and each that was posted was applied or waits, in turn. -/
structure Settled (ledger : Ledger) (letters : List Letter) : Prop where
  read : List.Forall₂ (Letter.ReadBy ledger.cluster.reader) letters (ledger.notes.filter (·.task.isMail))
  queued : ∀ endpoint, lettersTo endpoint letters ++ lettersTo endpoint ledger.cluster.network.mailbox =
    lettersTo endpoint ledger.posted

namespace Settled

theorem call (settled : ledger.Settled letters) (now : UInt64) (endpoint : Endpoint) (asked : Call) :
    Settled (Noted.call Occasion.handled now endpoint asked ledger).2 letters := by
  rcases Noted.call_cases Occasion.handled now endpoint asked ledger with
    ⟨error, same⟩ | ⟨seat, server, _, found, same⟩
  · rw [same]
    exact settled
  · rw [same]
    constructor
    · rw [Noted.jot_cluster, Cluster.settle_reader found (server.answer_here now asked), Noted.jot_notes,
        List.filter_append]
      simpa [Occasion.handled, Occasion.handling, Noted.answering, Task.isMail] using settled.read
    · intro endpoint
      simp only [Noted.jot_cluster, Cluster.settle, Ring.handAll_post, posted, Noted.jot_notes, List.flatMap_append,
        Occasion.handled, Option.toList_some, List.flatMap_singleton, Occasion.handling, Network.taken_post,
        lettersTo_append]
      rw [← List.append_assoc, settled.queued]
      rfl

theorem batch (settled : ledger.Settled letters) (client : Client) (now : UInt64) {ρ α : Type}
    (operation : Operation ρ α) (items : List ρ) :
    Settled (client.run (Noted.call Occasion.handled now) operation items ledger).2 letters :=
  Client.run_keeps (Settled · letters) (fun _ _ endpoint _ _ _ kept => kept.call now endpoint _) settled

theorem deliver (settled : ledger.Settled letters) (bounded : Bounded topology ledger) (now : UInt64) :
    Settled (Noted.deliverWithin Occasion.handled now ledger.cluster.network.pending ledger).2
      (letters ++ (Noted.deliverWithin Occasion.handled now ledger.cluster.network.pending ledger).1) := by
  have delivery := deliver_delivery now fun letter waits => bounded.place (bounded.waiting letter waits)
  obtain ⟨handlings, entered, handled⟩ := delivery.handled
  have mail : ∀ handling ∈ handlings, handling.task.isMail = true ∧ handling.posted = [] := by
    intro handling opened
    obtain ⟨index, inside, rfl⟩ := List.getElem_of_mem opened
    obtain ⟨counted, each⟩ := List.forall₂_iff_get.mp handled
    have reads := each index (counted ▸ inside) inside
    exact ⟨congrArg Task.isMail reads.task, reads.silent⟩
  constructor
  · rw [delivery.reader, entered, List.filter_append,
      List.filter_eq_self.mpr fun handling opened => (mail handling opened).1]
    exact List.rel_append settled.read handled
  · intro endpoint
    have silent : handlings.flatMap (·.posted) = [] :=
      List.flatMap_eq_nil_iff.mpr fun handling opened => (mail handling opened).2
    rw [posted, entered, List.flatMap_append, silent, List.append_nil, delivery.network, delivery.applied,
      lettersTo_append, List.nil_append, List.append_assoc, lettersTo_parted, settled.queued]
    rfl

theorem step (settled : ledger.Settled letters) (bounded : Bounded topology ledger) (client : Client) (now : UInt64)
    (action : Action) :
    Settled (Noted.step Occasion.handled now client action ledger).2
      (letters ++ (Cluster.step client now action ledger.cluster).1.applied) := by
  have aside {after : Ledger} (same : after.Settled letters) : after.Settled (letters ++ []) :=
    (List.append_nil letters).symm ▸ same
  cases action with
  | write writes => exact aside (settled.batch client now .write writes)
  | read reads => exact aside (settled.batch client now .read reads)
  | remove removals => exact aside (settled.batch client now .remove removals)
  | deliver =>
    have same : (Noted.deliverWithin Occasion.handled now ledger.cluster.network.pending ledger).1 =
        (ledger.cluster.deliver now).1 :=
      congrArg Prod.fst (Noted.deliverWithin_forgets Occasion.handled now ledger.cluster.network.pending ledger)
    have after := settled.deliver bounded now
    rw [same] at after
    exact after
  | down _ => exact aside ⟨settled.read, settled.queued⟩
  | up _ => exact aside ⟨settled.read, settled.queued⟩
  | hang _ => exact aside ⟨settled.read, settled.queued⟩

end Settled

theorem Delivered.settled (run : Delivered topology setup ledger letters) : ledger.Settled letters := by
  induction run with
  | @start cluster started =>
    have bounded := (Kept.start started).bounded
    have idle : cluster.network.mailbox = [] := List.subperm_nil.mp bounded.counted
    refine ⟨.nil, fun endpoint => ?_⟩
    rw [idle]
    rfl
  | call now endpoint asked _ ih => exact ih.call now endpoint asked
  | step client now action before ih => exact ih.step before.kept.bounded client now action

end Ledger

/-- The servers after a task was seen to where and when it is noted down to have been. -/
def Handling.replay (servers : List Server) (handling : Handling) : List Server :=
  servers.modify handling.seat fun server => (handling.task.outcome server handling.now).server

theorem Occasion.handling_replay {occasion : Occasion} {servers : List Server}
    (found : servers[occasion.seat]? = some occasion.server) :
    occasion.handling.replay servers =
      servers.set occasion.seat (occasion.task.outcome occasion.server occasion.now).server := by
  simp only [Handling.replay, handling, List.modify_eq_set_getElem?, found]
  rfl

namespace Ledger

private def Replayed (start : List Server) (ledger : Ledger) : Prop :=
  ledger.cluster.servers = ledger.notes.foldl Handling.replay start

private theorem Replayed.jot {start : List Server} (replayed : Replayed start ledger) {occasion : Occasion}
    (found : ledger.cluster.servers[occasion.seat]? = some occasion.server) {cluster : Cluster}
    (after : cluster.servers =
      ledger.cluster.servers.set occasion.seat (occasion.task.outcome occasion.server occasion.now).server) :
    Replayed start (ledger.jot cluster occasion.handled) := by
  rw [Replayed, Noted.jot_cluster, Noted.jot_notes, Occasion.handled, Option.toList_some, List.foldl_append, ← replayed,
    List.foldl_cons, List.foldl_nil, Occasion.handling_replay found, after]

private theorem Replayed.call {start : List Server} (replayed : Replayed start ledger) (now : UInt64)
    (endpoint : Endpoint) (asked : Call) :
    Replayed start (Noted.call Occasion.handled now endpoint asked ledger).2 := by
  rcases Noted.call_cases Occasion.handled now endpoint asked ledger with
    ⟨error, same⟩ | ⟨seat, server, _, found, same⟩
  · rw [same]
    exact replayed
  · rw [same]
    exact replayed.jot found rfl

theorem Kept.replayed (kept : Kept topology setup ledger) :
    ∃ start, Cluster.start topology setup = .ok start ∧
      ledger.cluster.servers = ledger.notes.foldl Handling.replay start.servers := by
  induction kept with
  | @start cluster started => exact ⟨cluster, started, rfl⟩
  | call now endpoint asked _ ih =>
    obtain ⟨start, started, replayed⟩ := ih
    exact ⟨start, started, Replayed.call replayed now endpoint asked⟩
  | step client now action _ ih =>
    obtain ⟨start, started, replayed⟩ := ih
    refine ⟨start, started, ?_⟩
    refine Noted.step_keeps Occasion.handled now (Replayed start.servers)
      (fun _ endpoint asked before => before.call now endpoint asked) (fun _ _ _ before => before) ?_
      (fun _ _ _ _ before => before) client action replayed
    intro earlier letter rest seat server _ _ found before
    exact before.jot found rfl

end Ledger

/-- A letter as it is kept until it is delivered: whom it is for, and its message in a frame. -/
structure Parcel where
  target : Endpoint
  frame : Bytes

def Letter.parcel (letter : Letter) : Parcel where
  target := letter.target
  frame := Wire.encode Wire.Layout.message letter.message

def Parcel.letter (parcel : Parcel) : Option Letter :=
  (Wire.decode Wire.Layout.message parcel.frame).toOption.map fun message => { target := parcel.target, message }

/-- No letter is lost in its frame, and none is mistaken for another one. -/
theorem parcels_read {letters : List Letter} (small : ∀ letter ∈ letters, Wire.Fits letter.message) :
    (letters.map Letter.parcel).filterMap Parcel.letter = letters := by
  have read : ∀ letter ∈ letters, letter.parcel.letter = some letter := by
    intro letter member
    have back := Wire.Layout.lawful_message.canonical.read_back letter.message [] (small letter member)
    rw [List.append_nil] at back
    rw [Letter.parcel, Parcel.letter, back]
    rfl
  rw [List.filterMap_map]
  exact (List.filterMap_congr read).trans List.filterMap_some

namespace Ledger

/-- At every endpoint, the letters that were applied and those that wait are together those that were posted, in
the order in which they were posted. The server at the endpoint has read each that was applied, once and in this
order: the servers are where the calls and these letters lead from the start. A delivery applies all that wait for
machines that are up, and would do so with any other mail. All that wait can be read from their frames. -/
theorem mail_delivered_once_in_order {topology : Topology} {setup : Cluster.Setup} {ledger : Ledger}
    {letters : List Letter} (run : Delivered topology setup ledger letters) :
    (∀ endpoint, lettersTo endpoint letters ++ lettersTo endpoint ledger.cluster.network.mailbox =
        lettersTo endpoint ledger.posted) ∧
      List.Forall₂ (Letter.ReadBy ledger.cluster.reader) letters (ledger.notes.filter (·.task.isMail)) ∧
      (∃ start, Cluster.start topology setup = .ok start ∧
        ledger.cluster.servers = ledger.notes.foldl Handling.replay start.servers) ∧
      (∀ now, ledger.cluster.Delivers now) ∧
      (∀ mailbox : List Letter, (∀ letter ∈ mailbox, (ledger.cluster.network.addressee letter.target).isSome = true) →
        ∀ now, (ledger.sort mailbox).cluster.Delivers now) ∧
      ((∀ letter ∈ ledger.posted, Wire.Fits letter.message) →
        (ledger.cluster.network.mailbox.map Letter.parcel).filterMap Parcel.letter = ledger.cluster.network.mailbox) := by
  have bounded := run.kept.bounded
  refine ⟨run.settled.queued, run.settled.read, run.kept.replayed, ?_, ?_, fun small => ?_⟩
  · exact delivers fun letter waits => bounded.place (bounded.waiting letter waits)
  · intro mailbox taken
    have places : ∀ letter ∈ mailbox, ∃ place, (ledger.sort mailbox).cluster.reader letter.target = some place :=
      fun letter waits => bounded.place (taken letter waits)
    exact delivers places
  · exact parcels_read fun letter waits => small letter (bounded.counted.subset waits)

def follow (client : Client) (start : Ledger × List Letter) (steps : List (UInt64 × Action)) : Ledger × List Letter :=
  steps.foldl (fun earlier (now, action) => ((Noted.step Occasion.handled now client action earlier.1).2,
    earlier.2 ++ (Cluster.step client now action earlier.1.cluster).1.applied)) start

theorem Delivered.follow {topology : Topology} {setup : Cluster.Setup} {ledger : Ledger} {letters : List Letter}
    (run : Delivered topology setup ledger letters) (client : Client) (steps : List (UInt64 × Action)) :
    Delivered topology setup (Ledger.follow client (ledger, letters) steps).1
      (Ledger.follow client (ledger, letters) steps).2 := by
  induction steps generalizing ledger letters with
  | nil => exact run
  | cons step steps ih => exact ih (run.step client step.1 step.2)

/-- One machine after the other is away, and the next one takes the write. -/
private def shifts : List (UInt64 × Action) :=
  [(1, .write [.lasting "k3" [1] []]), (2, .down ⟨⟨"tcp://b"⟩, ⟨"queue://b"⟩⟩), (3, .deliver),
    (4, .hang ⟨⟨"tcp://a"⟩, ⟨"queue://a"⟩⟩), (5, .write [.lasting "k3" [2] []]), (6, .deliver),
    (7, .up ⟨⟨"tcp://b"⟩, ⟨"queue://b"⟩⟩), (8, .down ⟨⟨"tcp://c"⟩, ⟨"queue://c"⟩⟩),
    (9, .write [.lasting "k3" [3] []]), (10, .deliver)]

private def delayed : Option (Ledger × List Letter) :=
  (Cluster.start Ring.trio.topology .standard).toOption.map fun cluster =>
    follow Ring.trio.client (⟨cluster, []⟩, []) shifts

/-- A letter with a copy of the first write that a machine has taken. -/
private def copied (machine : String) (byte : UInt8) (queue : String) : Letter where
  target := ⟨queue⟩
  message := .writes [{ Write.lasting "k3" [byte] [] with assigned := some { store := .ofName machine, number := 1 } }]

private theorem copied_fits (machine : String) (byte : UInt8) (queue : String) :
    Wire.Fits (copied machine byte queue).message := by
  have spelt : (Utf8.ofString "k3").length < 2 ^ 64 := by decide
  refine ⟨Nat.one_lt_two_pow (by decide), ?_⟩
  simp only [List.mem_singleton, forall_eq]
  refine ⟨spelt, ⟨by simp [Write.lasting], fun _ _ => trivial⟩, ?_, fun _ given => (by cases given), trivial, ?_⟩
  · intro parents given
    cases given
    exact ⟨by decide, fun _ named => (by cases named)⟩
  · exact fun _ _ => ⟨trivial, trivial⟩

/-- In the end the second machine has caught up on two letters, and the third one has one waiting. -/
theorem delayed_delivered :
    ∃ ledger letters, delayed = some (ledger, letters) ∧ Delivered Ring.trio.topology .standard ledger letters ∧
      ledger.posted =
        [copied "a" 1 "queue://b", copied "a" 1 "queue://c", copied "c" 2 "queue://a", copied "c" 2 "queue://b",
          copied "b" 3 "queue://a", copied "b" 3 "queue://c"] ∧
      letters =
        [copied "a" 1 "queue://c", copied "c" 2 "queue://a", copied "a" 1 "queue://b", copied "c" 2 "queue://b",
          copied "b" 3 "queue://a"] ∧
      (ledger.cluster.servers.map fun server => (server.store.table.entry "k3").values.map (·.data)) =
        [[[1], [2], [3]], [[3], [1], [2]], [[1], [2]]] ∧
      (∀ endpoint, lettersTo endpoint letters ++ lettersTo endpoint ledger.cluster.network.mailbox =
        lettersTo endpoint ledger.posted) ∧
      (∃ start, Cluster.start Ring.trio.topology .standard = .ok start ∧
        ledger.cluster.servers = ledger.notes.foldl Handling.replay start.servers) ∧
      (ledger.cluster.network.mailbox.map Letter.parcel).filterMap Parcel.letter = ledger.cluster.network.mailbox := by
  have shape : delayed.map (fun run => (run.1.posted, run.2,
      run.1.cluster.servers.map fun server => (server.store.table.entry "k3").values.map (·.data))) =
      some ([copied "a" 1 "queue://b", copied "a" 1 "queue://c", copied "c" 2 "queue://a", copied "c" 2 "queue://b",
          copied "b" 3 "queue://a", copied "b" 3 "queue://c"],
        [copied "a" 1 "queue://c", copied "c" 2 "queue://a", copied "a" 1 "queue://b", copied "c" 2 "queue://b",
          copied "b" 3 "queue://a"],
        [[[1], [2], [3]], [[3], [1], [2]], [[1], [2]]]) := by
    decide +kernel
  obtain ⟨⟨ledger, letters⟩, same, shape⟩ := Option.map_eq_some_iff.mp shape
  obtain ⟨posted, shape⟩ := Prod.mk.inj shape
  obtain ⟨applied, held⟩ := Prod.mk.inj shape
  have run : Delivered Ring.trio.topology .standard ledger letters := by
    obtain ⟨cluster, started, followed⟩ := Option.map_eq_some_iff.mp same
    have start : Cluster.start Ring.trio.topology .standard = .ok cluster := by
      cases start : Cluster.start Ring.trio.topology .standard with
      | error _ => simp [start, Except.toOption] at started
      | ok _ => simpa [start, Except.toOption] using started
    have last := (Delivered.start start).follow Ring.trio.client shifts
    rw [followed] at last
    exact last
  have small : ∀ letter ∈ ledger.posted, Wire.Fits letter.message := by
    simp only [posted, List.forall_mem_cons, copied_fits, true_and]
    exact List.forall_mem_nil _
  obtain ⟨queued, _, replayed, _, _, framed⟩ := mail_delivered_once_in_order run
  exact ⟨ledger, letters, same, run, posted, applied, held, queued, replayed, framed small⟩

end Ledger
end ReplicaRing
