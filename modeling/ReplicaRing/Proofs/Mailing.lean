import Mathlib.Data.List.Perm.Subperm
import ReplicaRing.Proofs.Committing

/-! How much mail there is, and what a delivery does with it. Only a client's batch that was committed gives rise to
letters, at most two of them, and what is done with a letter gives rise to none. So nothing goes round in circles in
any run, whatever the topology is. A delivery gives letters to the servers that they are for, but for those to machines
that are down, and empties the mailbox when everybody is up. -/

namespace ReplicaRing

def Post.taken {σ : Type} (post : Post σ) (letters : List Letter) (state : σ) : List Letter :=
  ((post.logged.handAll letters (state, [])).2.filter (·.2.isOk)).map (·.1)

theorem Network.taken_post (letters : List Letter) (network : Network) :
    Network.post.taken letters network = letters.filter fun letter => (network.addressee letter.target).isSome := by
  suffices further : ∀ log, ((post.logged.handAll letters (network, log)).2.filter (·.2.isOk)).map (·.1) =
      (log.filter (·.2.isOk)).map (·.1) ++ letters.filter fun letter => (network.addressee letter.target).isSome from
    further []
  induction letters generalizing network with
  | nil => exact fun log => (List.append_nil _).symm
  | cons letter letters ih =>
    intro log
    have later := ih (post.hand letter network).2 (log ++ [(letter, (post.hand letter network).1)])
    have roster : (post.hand letter network).2.addressee = network.addressee := by
      simp only [post]
      split <;> rfl
    rw [roster] at later
    refine later.trans ?_
    cases taken : (network.addressee letter.target).isSome with
    | false => simp [post, taken, Except.isOk, Except.toBool]
    | true => simp [post, taken, Except.isOk, Except.toBool]

/-- Whether a client's batch was committed. -/
def Task.commits : Task → Bool
  | call (.write (.client _) _) (.written _) => true
  | call (.remove (.client _) _) (.removed _) => true
  | _ => false

/-- What a server brings about as it sees to a task. -/
def Task.outcome (server : Server) (now : UInt64) : Task → Outcome Unit
  | call asked _ => Server.unheard (server.answer .never now asked)
  | mail message => server.receive .never now message

/-- A task that a server saw to: where and when, who it is, the letters that it handed over, and those of them that
were taken. -/
structure Handling where
  seat : Nat
  here : Address
  now : UInt64
  task : Task
  offered : List Letter
  posted : List Letter

namespace Occasion

def mail (occasion : Occasion) : List Letter :=
  (occasion.task.outcome occasion.server occasion.now).mail

def handling (occasion : Occasion) : Handling where
  seat := occasion.seat
  here := occasion.server.here
  now := occasion.now
  task := occasion.task
  offered := occasion.mail
  posted := Network.post.taken occasion.mail occasion.network

def handled (occasion : Occasion) : Option Handling :=
  some occasion.handling

end Occasion

/-- A cluster, and all that its servers have seen to. -/
abbrev Ledger := Noted Handling

namespace Ledger

/-- Ledgers of runs: any calls to any endpoints, batches of any clients, deliveries, and machines that fail and
come back. -/
inductive Kept (topology : Topology) (setup : Cluster.Setup) : Ledger → Prop where
  | start {cluster : Cluster} (started : Cluster.start topology setup = .ok cluster) :
      Kept topology setup { cluster, notes := [] }
  | call {ledger : Ledger} (now : UInt64) (endpoint : Endpoint) (asked : Call) (before : Kept topology setup ledger) :
      Kept topology setup (Noted.call Occasion.handled now endpoint asked ledger).2
  | step {ledger : Ledger} (client : Client) (now : UInt64) (action : Action) (before : Kept topology setup ledger) :
      Kept topology setup (Noted.step Occasion.handled now client action ledger).2

def posted (ledger : Ledger) : List Letter :=
  ledger.notes.flatMap (·.posted)

end Ledger

namespace Dispatch

theorem mailboxes_length (own : Endpoint) (found : List Endpoint) (addresses : List Address) :
    (mailboxes own found addresses).length ≤ found.length + addresses.length := by
  induction addresses generalizing found with
  | nil => exact Nat.le_refl _
  | cons address addresses ih =>
    simp only [mailboxes, List.length_cons]
    split
    · have longer := ih (found ++ [address.async])
      rw [List.length_append, List.length_singleton] at longer
      omega
    · have same := ih found
      omega

theorem candidates_length (destination : Node) (here : Address) : (candidates destination here).length ≤ 2 := by
  have one (place : Option Address) : place.toList.length ≤ 1 := by cases place <;> simp
  have second := one destination.secondary
  have third := one destination.tertiary
  have other := one (destination.otherReplica here.sync)
  unfold candidates
  split
  · rw [List.length_append]
    omega
  · rw [List.length_cons]
    omega

theorem targets_length (origin : Origin) (here : Address) : (Dispatch.of origin here).targets.length ≤ 2 := by
  cases origin with
  | client destination =>
    have few := mailboxes_length here.async [] (candidates destination here)
    rw [List.length_nil, Nat.zero_add] at few
    exact Nat.le_trans few (candidates_length destination here)
  | peer => exact Nat.zero_le _

theorem own_not_mem_targets (origin : Origin) (here : Address) : here.async ∉ (Dispatch.of origin here).targets := by
  cases origin with
  | client destination =>
    intro member
    rcases mem_mailboxes.mp member with member | ⟨foreign, _⟩
    · cases member
    · exact foreign rfl
  | peer => exact List.not_mem_nil

end Dispatch

namespace Server

/-- What a call leads to: nothing is sent, or a client's batch was committed, and is sent to its targets. -/
theorem answer_mail (server : Server) (now : UInt64) (asked : Call) :
    (server.answer .never now asked).mail = [] ∨
      (Task.call asked (server.answer .never now asked).answer).commits = true ∧
        ∃ origin message, (server.answer .never now asked).mail = letters (.of origin server.here) message := by
  cases asked with
  | write origin writes =>
    by_cases sound : ∀ write ∈ writes, checkWrite origin write = .ok ()
    · obtain ⟨store, _, shape⟩ := server.write_accepted now sound
      rw [answer, shape]
      cases origin with
      | client destination => exact Or.inr ⟨rfl, _, _, rfl⟩
      | peer => exact Or.inl (by simp [respond, letters, Dispatch.of])
    · obtain ⟨refusal, shape⟩ := server.write_refused now sound
      rw [answer, shape]
      exact Or.inl rfl
  | remove origin removals =>
    by_cases sound : ∀ removal ∈ removals, removal.Sound
    · obtain ⟨store, _, shape⟩ := server.remove_accepted origin sound
      rw [answer, shape]
      cases origin with
      | client destination => exact Or.inr ⟨rfl, _, _, rfl⟩
      | peer => exact Or.inl (by simp [respond, letters, Dispatch.of])
    · obtain ⟨refusal, shape⟩ := server.remove_refused origin sound
      rw [answer, shape]
      exact Or.inl rfl
  | read reads =>
    obtain ⟨store, _, shape⟩ := server.read_answered now reads
    rw [answer, shape]
    exact Or.inl rfl
  | _ => exact Or.inl rfl

theorem receive_mail (server : Server) (now : UInt64) (message : Message) :
    (server.receive .never now message).mail = [] := by
  rw [receive_eq_handle]
  cases passed : accepts .peer message with
  | true => exact server.handle_quiet now passed
  | false => rw [server.handle_refused now passed]

end Server

/-- A task that is no committed batch of a client leads to no letters, and one that is leads to two at most, to
different machines and not to the server's own. -/
structure Handling.Modest (handling : Handling) : Prop where
  quiet : handling.task.commits = false → handling.offered = []
  few : handling.offered.length ≤ 2
  distinct : (handling.offered.map (·.target)).Nodup
  elsewhere : handling.here.async ∉ handling.offered.map (·.target)
  taken : handling.posted.Sublist handling.offered

namespace Occasion

variable {occasion : Occasion}

private theorem modest_idle (idle : occasion.mail = []) : occasion.handling.Modest where
  quiet _ := idle
  few := by simp [handling, idle]
  distinct := by simp [handling, idle]
  elsewhere := by simp [handling, idle]
  taken := by
    simp only [handling, Network.taken_post]
    exact List.filter_sublist

private theorem modest_told (commits : occasion.task.commits = true) {origin : Origin} {message : Message}
    (told : occasion.mail = Server.letters (.of origin occasion.server.here) message) :
    occasion.handling.Modest where
  quiet silent := by
    rw [show occasion.handling.task = occasion.task from rfl, commits] at silent
    cases silent
  few := by
    have few := Dispatch.targets_length origin occasion.server.here
    rw [handling, told, ← List.length_map (f := (·.target)), Server.letters_targets]
    split
    · exact Nat.zero_le _
    · exact few
  distinct := by
    rw [handling, told]
    exact Server.letters_nodup origin occasion.server.here message
  elsewhere := by
    simp only [handling, told, Server.letters_targets]
    split
    · exact List.not_mem_nil
    · exact Dispatch.own_not_mem_targets origin occasion.server.here
  taken := by
    simp only [handling, Network.taken_post]
    exact List.filter_sublist

theorem answering_modest (now : UInt64) (cluster : Cluster) (seat : Nat) (server : Server) (asked : Call) :
    (Noted.answering now cluster seat server asked).handling.Modest := by
  rcases server.answer_mail now asked with idle | ⟨commits, origin, message, told⟩
  · exact modest_idle idle
  · exact modest_told commits told

theorem reading_mail (now : UInt64) (cluster : Cluster) (seat : Nat) (server : Server) (letter : Letter) :
    (Noted.reading now cluster seat server letter).mail = [] :=
  server.receive_mail now letter.message

end Occasion

def Cluster.Seated (cluster : Cluster) : Prop :=
  ∀ registration ∈ cluster.network.roster, registration.seat < cluster.servers.length

theorem Cluster.Seated.settle {cluster : Cluster} (seated : cluster.Seated) {α : Type} (seat : Nat)
    (outcome : Outcome α) : (cluster.settle seat outcome).Seated := by
  simpa [Seated, Cluster.settle, Ring.handAll_post] using seated

theorem Cluster.startAll_keeps {topology : Topology} {setup : Setup} {rest : List Node} {before final : Cluster}
    (property : Cluster → Prop)
    (kept : ∀ node ∈ rest, ∀ (earlier : Cluster) (server : Server), startServer topology setup node = .ok server →
      property earlier → property { earlier with servers := earlier.servers ++ [server] } ∧
        property { network := earlier.network.register node.primary earlier.servers.length
                   servers := earlier.servers ++ [server] })
    (ran : startAll topology setup rest before = .ok final) (first : property before) : property final := by
  induction rest generalizing before with
  | nil =>
    cases ran
    exact first
  | cons node rest ih =>
    simp only [startAll, bind, Except.bind] at ran
    split at ran
    · cases ran
    · next server started =>
      obtain ⟨aside, registered⟩ := kept node List.mem_cons_self before server started first
      refine ih (fun other member => kept other (List.mem_cons_of_mem _ member)) ran ?_
      split
      · exact registered
      · exact aside

namespace Ledger

/-- What every step keeps: handlings are modest, each service has a server and is one of a machine of the topology,
somebody takes in each letter that waits, and all letters that wait were posted in some handling. -/
structure Bounded (topology : Topology) (ledger : Ledger) : Prop where
  modest : ∀ handling ∈ ledger.notes, handling.Modest
  seated : ledger.cluster.Seated
  roster : ∀ registration ∈ ledger.cluster.network.roster, ∃ node ∈ topology.nodes, node.primary = registration.address
  waiting : ∀ letter ∈ ledger.cluster.network.mailbox, (ledger.cluster.network.addressee letter.target).isSome = true
  counted : ledger.cluster.network.mailbox.Subperm ledger.posted

namespace Bounded

variable {topology : Topology} {ledger : Ledger}

private theorem settle (bounded : Bounded topology ledger) {occasion : Occasion} (modest : occasion.handling.Modest)
    (network : occasion.network = ledger.cluster.network) {α : Type} (seat : Nat) {outcome : Outcome α}
    (mail : outcome.mail = occasion.mail) :
    Bounded topology (ledger.jot (ledger.cluster.settle seat outcome) occasion.handled) where
  modest handling member := by
    rcases List.mem_append.mp member with old | new
    · exact bounded.modest handling old
    · rw [← Option.some.inj (Option.mem_toList.mp new)]
      exact modest
  seated := bounded.seated.settle seat outcome
  roster := by
    simp only [Noted.jot_cluster, Cluster.settle, Ring.handAll_post]
    exact bounded.roster
  waiting letter member := by
    simp only [Noted.jot_cluster, Cluster.settle, Ring.handAll_post] at member ⊢
    rcases List.mem_append.mp member with old | new
    · exact bounded.waiting letter old
    · exact (List.mem_filter.mp new).2
  counted := by
    simp only [Noted.jot_cluster, Noted.jot_notes, Cluster.settle, Ring.handAll_post, posted, List.flatMap_append,
      Occasion.handled, Option.toList_some, List.flatMap_singleton, Occasion.handling, Network.taken_post, mail, network]
    exact bounded.counted.append (List.Subperm.refl _)

private theorem lighten (bounded : Bounded topology ledger) {mailbox : List Letter}
    (fewer : mailbox.Subperm ledger.cluster.network.mailbox) :
    Bounded topology (ledger.sort mailbox) where
  modest := bounded.modest
  seated := bounded.seated
  roster := bounded.roster
  waiting letter member := bounded.waiting letter (fewer.subset member)
  counted := fewer.trans bounded.counted

private theorem mapNetwork (bounded : Bounded topology ledger) {change : Network → Network}
    (roster : (change ledger.cluster.network).roster = ledger.cluster.network.roster)
    (mailbox : (change ledger.cluster.network).mailbox = ledger.cluster.network.mailbox) :
    Bounded topology { ledger with cluster := ledger.cluster.mapNetwork change } where
  modest := bounded.modest
  seated := by
    simp only [Cluster.Seated, Cluster.mapNetwork, roster]
    exact bounded.seated
  roster := by
    simp only [Cluster.mapNetwork, roster]
    exact bounded.roster
  waiting := by
    simp only [Cluster.mapNetwork, Network.addressee, roster, mailbox]
    exact bounded.waiting
  counted := by
    simp only [Cluster.mapNetwork, mailbox]
    exact bounded.counted

theorem call (bounded : Bounded topology ledger) (now : UInt64) (endpoint : Endpoint) (asked : Call) :
    Bounded topology (Noted.call Occasion.handled now endpoint asked ledger).2 := by
  rcases Noted.call_cases Occasion.handled now endpoint asked ledger with
    ⟨error, same⟩ | ⟨seat, server, _, _, same⟩
  · rw [same]
    exact bounded
  · rw [same]
    exact bounded.settle (Occasion.answering_modest now _ seat server asked) rfl seat rfl

theorem step (bounded : Bounded topology ledger) (client : Client) (now : UInt64) (action : Action) :
    Bounded topology (Noted.step Occasion.handled now client action ledger).2 := by
  refine Noted.step_keeps Occasion.handled now (Bounded topology)
    (fun _ endpoint asked kept => kept.call now endpoint asked) (fun _ _ fewer kept => kept.lighten fewer) ?_ (fun _ _ roster mailbox kept => kept.mapNetwork roster mailbox)
    client action bounded
  intro earlier letter rest seat server mail _ _ kept
  have lighter := kept.lighten (mail ▸ (List.sublist_cons_self letter rest).subperm)
  exact lighter.settle (Occasion.modest_idle (Occasion.reading_mail now _ seat server letter)) rfl seat rfl

end Bounded

private theorem start_roster {topology : Topology} {setup : Cluster.Setup} {cluster : Cluster}
    (started : Cluster.start topology setup = .ok cluster) :
    cluster.network.mailbox = [] ∧ cluster.Seated ∧
      ∀ registration ∈ cluster.network.roster, ∃ node ∈ topology.nodes, node.primary = registration.address := by
  refine Cluster.startAll_keeps
    (fun cluster => cluster.network.mailbox = [] ∧ cluster.Seated ∧
      ∀ registration ∈ cluster.network.roster, ∃ node ∈ topology.nodes, node.primary = registration.address)
    ?_ started ⟨rfl, fun _ member => (by cases member), fun _ member => by cases member⟩
  intro node listed earlier server _ before
  obtain ⟨idle, seated, roster⟩ := before
  have longer : ∀ registration ∈ earlier.network.roster,
      registration.seat < (earlier.servers ++ [server]).length := by
    intro registration member
    rw [List.length_append]
    exact Nat.lt_add_right _ (seated registration member)
  refine ⟨⟨idle, longer, roster⟩, idle, ?_, ?_⟩
  · exact List.forall_mem_cons.mpr ⟨by simp, longer⟩
  · exact List.forall_mem_cons.mpr ⟨⟨node, listed, rfl⟩, roster⟩

theorem Kept.bounded {topology : Topology} {setup : Cluster.Setup} {ledger : Ledger}
    (kept : Kept topology setup ledger) : Bounded topology ledger := by
  induction kept with
  | @start cluster started =>
    obtain ⟨idle, seated, roster⟩ := start_roster started
    exact ⟨fun _ member => (by cases member), seated, roster, by simp [idle], by simp [idle]⟩
  | call now endpoint asked _ ih => exact ih.call now endpoint asked
  | step client now action _ ih => exact ih.step client now action

end Ledger

theorem Cluster.Ran.kept {topology : Topology} {setup : Setup} {chronicle : Chronicle}
    (ran : Ran topology setup chronicle) :
    ∃ handlings, Ledger.Kept topology setup { cluster := chronicle.cluster, notes := handlings } := by
  induction ran with
  | start started => exact ⟨[], .start started⟩
  | @step chronicle client now action _ ih =>
    obtain ⟨handlings, kept⟩ := ih
    let ledger : Ledger := { cluster := chronicle.cluster, notes := handlings }
    have next := kept.step client now action
    refine ⟨(Noted.step Occasion.handled now client action ledger).2.notes, ?_⟩
    rw [Chronicle.step, ← Noted.step_after Occasion.handled now client action ledger]
    exact next

theorem Cluster.Ran.seated {topology : Topology} {setup : Setup} {chronicle : Chronicle}
    (ran : Ran topology setup chronicle) : chronicle.cluster.Seated := by
  obtain ⟨_, kept⟩ := ran.kept
  exact kept.bounded.seated

namespace Server

variable (server : Server) (now : UInt64)

theorem handle_here (origin : Origin) (message : Message) :
    (server.handle now origin message).server.here = server.here := by
  cases passed : accepts origin message with
  | true =>
    obtain ⟨store, _, shape⟩ := server.handle_accepted now passed
    rw [shape]
  | false => rw [server.handle_refused now passed]

theorem answer_here (asked : Call) : (server.answer .never now asked).server.here = server.here := by
  cases sent : asked.batch with
  | none => exact (server.answer_idle now sent).2.1
  | some batch => rw [(server.answer_batch now sent).1, server.handle_here]

end Server

/-- The servers after the one that takes in a letter's mail has been given its message. -/
def Network.give (network : Network) (now : UInt64) (servers : List Server) (letter : Letter) : List Server :=
  match network.addressee letter.target with
  | some seat => servers.modify seat fun server => (server.receive .never now letter.message).server
  | none => servers

/-- The server that takes in mail at a letter's target was given its message, and posted nothing about it. -/
structure Letter.ReadBy (reader : Endpoint → Option (Nat × Address)) (letter : Letter) (handling : Handling) : Prop where
  task : handling.task = .mail letter.message
  place : reader letter.target = some (handling.seat, handling.here)
  silent : handling.posted = []

namespace Cluster

variable {cluster : Cluster}

/-- The seat of the server that takes in mail at an endpoint, and its machine. -/
def reader (cluster : Cluster) (endpoint : Endpoint) : Option (Nat × Address) := do
  let seat ← cluster.network.addressee endpoint
  let here ← (cluster.servers.map Server.here)[seat]?
  return (seat, here)

theorem settle_reader {seat : Nat} {server : Server} {α : Type} {outcome : Outcome α}
    (found : cluster.servers[seat]? = some server) (stays : outcome.server.here = server.here) :
    (cluster.settle seat outcome).reader = cluster.reader := by
  obtain ⟨inside, rfl⟩ := List.getElem?_eq_some_iff.mp found
  funext endpoint
  simp only [reader, settle, Ring.handAll_post, List.map_set, stays]
  rw [← List.map_set, List.set_getElem_self]
  rfl

end Cluster

theorem Network.give_found {network : Network} {servers : List Server} {letter : Letter} {seat : Nat} {server : Server}
    (now : UInt64) (addressed : network.addressee letter.target = some seat) (found : servers[seat]? = some server) :
    network.give now servers letter = servers.set seat (server.receive .never now letter.message).server := by
  simp only [give, addressed, List.modify_eq_set_getElem?, found]
  rfl

namespace Ledger

variable {ledger : Ledger}

private theorem apply_read (now : UInt64) {letter : Letter} {seat : Nat} {here : Address}
    (read : ledger.cluster.reader letter.target = some (seat, here)) :
    ∃ next handling, Cluster.apply now letter ledger.cluster = some next ∧
      next.network = ledger.cluster.network ∧
      next.servers = ledger.cluster.network.give now ledger.cluster.servers letter ∧
      next.reader = ledger.cluster.reader ∧
      Noted.opened Occasion.handled now letter ledger.cluster = some handling ∧
      letter.ReadBy ledger.cluster.reader handling := by
  obtain ⟨_, addressed, placed⟩ := Option.bind_eq_some_iff.mp read
  obtain ⟨_, placed, same⟩ := Option.bind_eq_some_iff.mp placed
  cases same
  rw [List.getElem?_map] at placed
  obtain ⟨server, found, rfl⟩ := Option.map_eq_some_iff.mp placed
  have quiet := server.receive_mail now letter.message
  have stays : (server.receive .never now letter.message).server.here = server.here := by
    rw [server.receive_eq_handle, server.handle_here]
  refine ⟨ledger.cluster.settle seat (server.receive .never now letter.message),
    (Noted.reading now ledger.cluster seat server letter).handling, by simp [Cluster.apply, addressed, found], ?_, ?_,
    Cluster.settle_reader found stays, by simp [Noted.opened, Occasion.handled, addressed, found], rfl, read, ?_⟩
  · rw [Cluster.settle, quiet, Post.handAll]
  · exact (Network.give_found now addressed found).symm
  · rw [Occasion.handling, Occasion.reading_mail]
    rfl

/-- What taking up the letters at the front of the mailbox brings about. -/
structure Delivery (ledger : Ledger) (now : UInt64) (front back letters : List Letter) (after : Ledger) : Prop where
  applied : letters = front.filter (·.target ∉ ledger.cluster.network.down)
  network : after.cluster.network =
    { ledger.cluster.network with mailbox := back ++ front.filter (·.target ∈ ledger.cluster.network.down) }
  servers : after.cluster.servers = letters.foldl (ledger.cluster.network.give now) ledger.cluster.servers
  reader : after.cluster.reader = ledger.cluster.reader
  handled : ∃ handlings, after.notes = ledger.notes ++ handlings ∧
    List.Forall₂ (Letter.ReadBy ledger.cluster.reader) letters handlings

/-- Letters that must wait gather behind the mail at the back, so that they keep their order. -/
theorem deliverWithin_delivery (now : UInt64) {front : List Letter} (back : List Letter)
    (mail : ledger.cluster.network.mailbox = front ++ back)
    (read : ∀ letter ∈ front, ∃ place, ledger.cluster.reader letter.target = some place) :
    ledger.Delivery now front back (Noted.deliverWithin Occasion.handled now front.length ledger).1
      (Noted.deliverWithin Occasion.handled now front.length ledger).2 := by
  induction front generalizing back ledger with
  | nil =>
    refine ⟨rfl, ?_, rfl, rfl, [], (List.append_nil _).symm, .nil⟩
    simp only [Noted.deliverWithin, List.length_nil, List.filter_nil, List.append_nil]
    rw [← List.nil_append back, ← mail]
  | cons letter front ih =>
    obtain ⟨here, others⟩ := List.forall_mem_cons.mp read
    have first : ledger.cluster.network.mailbox = letter :: (front ++ back) := mail
    simp only [List.length_cons, Noted.deliverWithin, first]
    by_cases away : letter.target ∈ ledger.cluster.network.down
    · -- the letter goes behind those at the back, all of which came before it
      have waits : ledger.cluster.network.down.contains letter.target = true := List.contains_iff_mem.mpr away
      simp only [waits, if_true]
      have later : Delivery (ledger.sort (front ++ back ++ [letter])) now front (back ++ [letter]) _ _ :=
        ih _ (List.append_assoc _ _ _) others
      refine ⟨?_, ?_, later.servers, later.reader, later.handled⟩
      · rw [List.filter_cons_of_neg (by simpa using away)]
        exact later.applied
      · rw [List.filter_cons_of_pos (by simpa using away), List.append_cons back]
        exact later.network
    · have goes : ledger.cluster.network.down.contains letter.target = false := by simpa using away
      obtain ⟨⟨seat, machine⟩, read⟩ := here
      have same : (ledger.sort (front ++ back)).cluster.reader letter.target = some (seat, machine) := read
      obtain ⟨next, handling, given, network, servers, reader, noted, reads⟩ := apply_read now same
      simp only [goes, Bool.false_eq_true, if_false, given, noted]
      have later : Delivery (ledger.jot next (some handling)) now front back _ _ :=
        ih back (by rw [Noted.jot_cluster, network]; rfl) (by rw [Noted.jot_cluster, reader]; exact others)
      obtain ⟨handlings, entered, handled⟩ := later.handled
      refine ⟨?_, ?_, ?_, later.reader.trans reader, handling :: handlings, ?_, .cons reads ?_⟩
      · rw [List.filter_cons_of_pos (by simpa using away), later.applied, Noted.jot_cluster, network]
        rfl
      · rw [List.filter_cons_of_neg (by simpa using away), later.network, Noted.jot_cluster, network]
        rfl
      · rw [List.foldl_cons, later.servers, Noted.jot_cluster, servers, network]
        rfl
      · rw [entered, Noted.jot_notes, List.append_assoc]
        rfl
      · exact handled.imp fun letter handling reads => reader ▸ reads

theorem deliver_delivery (now : UInt64)
    (read : ∀ letter ∈ ledger.cluster.network.mailbox, ∃ place, ledger.cluster.reader letter.target = some place) :
    ledger.Delivery now ledger.cluster.network.mailbox []
      (Noted.deliverWithin Occasion.handled now ledger.cluster.network.pending ledger).1
      (Noted.deliverWithin Occasion.handled now ledger.cluster.network.pending ledger).2 :=
  deliverWithin_delivery now [] (List.append_nil _).symm read

end Ledger

/-- A delivery gives each letter for a machine that is up to the server there, once and in turn. It leaves the others
as they stand, and changes nothing else. -/
structure Cluster.Delivers (cluster : Cluster) (now : UInt64) : Prop where
  applied : (cluster.deliver now).1 = cluster.network.mailbox.filter (·.target ∉ cluster.network.down)
  servers : (cluster.deliver now).2.servers =
    (cluster.network.mailbox.filter (·.target ∉ cluster.network.down)).foldl (cluster.network.give now) cluster.servers
  network : (cluster.deliver now).2.network =
    { cluster.network with mailbox := cluster.network.mailbox.filter (·.target ∈ cluster.network.down) }

theorem Ledger.delivers {ledger : Ledger}
    (read : ∀ letter ∈ ledger.cluster.network.mailbox, ∃ place, ledger.cluster.reader letter.target = some place)
    (now : UInt64) : ledger.cluster.Delivers now := by
  obtain ⟨applied, network, servers, _, _⟩ := deliver_delivery now read
  have same : Prod.map id Noted.cluster _ = ledger.cluster.deliver now :=
    Noted.deliverWithin_forgets Occasion.handled now ledger.cluster.network.pending ledger
  rw [applied] at servers
  constructor
  · rw [← same]
    exact applied
  · rw [← same]
    exact servers
  · rw [← same]
    exact network

namespace Ledger

theorem Bounded.place {topology : Topology} {ledger : Ledger} (bounded : Bounded topology ledger) {endpoint : Endpoint}
    (taken : (ledger.cluster.network.addressee endpoint).isSome = true) :
    ∃ place, ledger.cluster.reader endpoint = some place := by
  obtain ⟨seat, addressed⟩ := Option.isSome_iff_exists.mp taken
  obtain ⟨registration, search, rfl⟩ := Option.map_eq_some_iff.mp addressed
  have seated := bounded.seated registration (List.mem_of_find?_eq_some search)
  refine ⟨(registration.seat, ledger.cluster.servers[registration.seat].here), ?_⟩
  rw [Cluster.reader, addressed]
  simp [seated]

private theorem posted_length {handlings : List Handling} (modest : ∀ handling ∈ handlings, handling.Modest) :
    (handlings.flatMap (·.posted)).length ≤ 2 * handlings.countP (·.task.commits) := by
  induction handlings with
  | nil => exact Nat.le_refl _
  | cons handling handlings ih =>
    have first := modest handling List.mem_cons_self
    have rest := ih fun other member => modest other (List.mem_cons_of_mem _ member)
    have fewer := first.taken.length_le
    rw [List.flatMap_cons, List.length_append, List.countP_cons]
    cases commits : handling.task.commits with
    | false =>
      rw [first.quiet commits, List.length_nil] at fewer
      simp only [Bool.false_eq_true, if_false]
      omega
    | true =>
      have few := first.few
      simp only [if_true]
      omega

/-- Mail does not breed mail. A batch of a client that was committed leads to two letters at most, to different
machines other than the one that committed it, and nothing else leads to any. All letters that were ever sent are
counted so, those that wait are among them, and a delivery leaves none when no machine is down. -/
theorem mail_bounded {topology : Topology} {setup : Cluster.Setup} {ledger : Ledger}
    (kept : Kept topology setup ledger) :
    (∀ handling ∈ ledger.notes, handling.task.commits = false → handling.offered = []) ∧
      (∀ handling ∈ ledger.notes, handling.task.commits = true →
        handling.offered.length ≤ 2 ∧ (handling.offered.map (·.target)).Nodup ∧
          handling.here.async ∉ handling.offered.map (·.target)) ∧
      ledger.posted.length ≤ 2 * ledger.notes.countP (·.task.commits) ∧
      ledger.cluster.network.mailbox.Subperm ledger.posted ∧
      ((∀ node ∈ topology.nodes, node.primary.async ∉ ledger.cluster.network.down) →
        ∀ now, (ledger.cluster.deliver now).2.network.mailbox = []) := by
  have bounded := kept.bounded
  refine ⟨fun handling member => (bounded.modest handling member).quiet, ?_, posted_length bounded.modest,
    bounded.counted, ?_⟩
  · intro handling member _
    have modest := bounded.modest handling member
    exact ⟨modest.few, modest.distinct, modest.elsewhere⟩
  · intro up now
    have reachable : ∀ letter ∈ ledger.cluster.network.mailbox, letter.target ∉ ledger.cluster.network.down := by
      intro letter member
      obtain ⟨seat, found⟩ := Option.isSome_iff_exists.mp (bounded.waiting letter member)
      obtain ⟨registration, search, _⟩ := Option.map_eq_some_iff.mp found
      obtain ⟨node, listed, same⟩ := bounded.roster registration (List.mem_of_find?_eq_some search)
      have target : node.primary.async = letter.target := by
        rw [same]
        simpa using List.find?_some search
      exact target ▸ up node listed
    have delivers := delivers (fun letter waits => bounded.place (bounded.waiting letter waits)) now
    rw [delivers.network, List.filter_eq_nil_iff]
    intro letter waits
    simpa using reachable letter waits

/-- A ring of two machines, in which each shard has one machine down twice. -/
private def doubled : Topology where
  nodes :=
    [ { name := "a", primary := ⟨⟨"tcp://a"⟩, ⟨"queue://a"⟩⟩, secondary := some ⟨⟨"tcp://a"⟩, ⟨"queue://a"⟩⟩
        tertiary := some ⟨⟨"tcp://b"⟩, ⟨"queue://b"⟩⟩ },
      { name := "b", primary := ⟨⟨"tcp://b"⟩, ⟨"queue://b"⟩⟩, secondary := some ⟨⟨"tcp://a"⟩, ⟨"queue://a"⟩⟩
        tertiary := some ⟨⟨"tcp://a"⟩, ⟨"queue://a"⟩⟩ } ]
  populated := by simp

/-- The second machine stands in for the first one, and is sent a copy by hand; then a client writes. -/
private def gathered : Option Ledger :=
  (Cluster.start doubled .standard).toOption.map fun cluster =>
    let call := Noted.call Occasion.handled 0 ⟨"tcp://b"⟩
    let standing := (call (.write (.client doubled.first) [.lasting "k1" [1] []]) ⟨cluster, []⟩).2
    let copied := (call (.write .peer [.lasting "k2" [2] []]) standing).2
    let client : Client := { topology := doubled, partitioner := .xxh3 }
    (Noted.step Occasion.handled 0 client (.write [.lasting "k3" [3] []]) copied).2

theorem gathered_bounded :
    ∃ ledger, gathered = some ledger ∧ Kept doubled .standard ledger ∧
      ledger.notes.map (fun handling => (handling.task.commits, handling.offered.map (·.target))) =
        [(true, [⟨"queue://a"⟩]), (false, []), (true, [⟨"queue://b"⟩])] ∧
      ledger.cluster.network.pending = 2 ∧ ledger.posted.length ≤ 2 * 2 ∧
      (ledger.cluster.deliver 0).2.network.mailbox = [] := by
  have shape : gathered.map (fun ledger =>
      (ledger.notes.map fun handling => (handling.task.commits, handling.offered.map (·.target)),
        ledger.cluster.network.pending, ledger.cluster.network.down)) =
      some ([(true, [⟨"queue://a"⟩]), (false, []), (true, [⟨"queue://b"⟩])], 2, []) := by decide +kernel
  obtain ⟨ledger, same, shape⟩ := Option.map_eq_some_iff.mp shape
  obtain ⟨handlings, pending, up⟩ : _ ∧ _ ∧ _ := by simpa using shape
  have kept : Kept doubled .standard ledger := by
    obtain ⟨cluster, started, rfl⟩ := Option.map_eq_some_iff.mp same
    refine .step _ 0 _ (.call 0 _ _ (.call 0 _ _ (.start ?_)))
    cases start : Cluster.start doubled .standard with
    | error _ => simp [start, Except.toOption] at started
    | ok _ => simpa [start, Except.toOption] using started
  obtain ⟨_, _, few, _, drained⟩ := mail_bounded kept
  have commits : ledger.notes.countP (·.task.commits) = 2 := by
    have counted := congrArg (List.countP (·.1)) handlings
    rw [List.countP_map] at counted
    exact counted
  rw [commits] at few
  exact ⟨ledger, same, kept, handlings, pending, few, drained (by simp [up]) 0⟩

end Ledger
end ReplicaRing
