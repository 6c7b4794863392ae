import ReplicaRing.Proofs.Grouping
import ReplicaRing.Proofs.Mailing

/-! What a batch of a client does to a cluster, said without attempts: its groups are carried out one after the
other, each by the first holder of its shard that answers, up to the first group that nobody answers or that holds
an item that is turned away. The client reports what became of its last attempt at that group. -/

namespace ReplicaRing

namespace Network

variable {network : Network} {endpoint : Endpoint}

def Registers (network : Network) (endpoint : Endpoint) : Prop :=
  ∃ registration ∈ network.roster, registration.address.sync = endpoint

/-- A service is registered at an endpoint, and it is neither down nor hung. -/
def Answers (network : Network) (endpoint : Endpoint) : Prop :=
  network.Registers endpoint ∧ endpoint ∉ network.down ∧ endpoint ∉ network.hung

instance : Decidable (network.Registers endpoint) :=
  inferInstanceAs (Decidable (∃ registration ∈ network.roster, registration.address.sync = endpoint))

instance : Decidable (network.Answers endpoint) :=
  inferInstanceAs (Decidable (_ ∧ _ ∧ _))

def silence (network : Network) (endpoint : Endpoint) : Option NetworkError :=
  if endpoint ∈ network.down ∨ ¬ network.Registers endpoint then some (.unreachable endpoint)
  else if endpoint ∈ network.hung then some (.timeout endpoint)
  else none

/-- Why a call to an endpoint comes to nothing, if it does: nobody answers, or its items were checked and refused. -/
def obstacle (network : Network) (checked : Except Refusal Unit) (endpoint : Endpoint) : Option Error :=
  match network.silence endpoint, checked with
  | some cause, _ => some (.network cause)
  | none, .error refusal => some refusal.toError
  | none, .ok () => none

theorem callee_isSome : (network.callee endpoint).isSome = true ↔ network.Registers endpoint := by
  simp [callee, Registers]

theorem silence_none : network.silence endpoint = none ↔ network.Answers endpoint := by
  unfold silence Answers
  by_cases registered : network.Registers endpoint <;> by_cases down : endpoint ∈ network.down <;>
    by_cases hung : endpoint ∈ network.hung <;> simp [registered, down, hung]

theorem obstacle_none {checked : Except Refusal Unit} :
    network.obstacle checked endpoint = none ↔ checked = .ok () ∧ network.Answers endpoint := by
  rw [← silence_none]
  unfold obstacle
  cases network.silence endpoint <;> cases checked <;> simp

theorem exists_obstacle {checked : Except Refusal Unit} (stuck : checked = .ok () → ¬ network.Answers endpoint) :
    ∃ error, network.obstacle checked endpoint = some error := by
  refine Option.ne_none_iff_exists'.mp fun free => ?_
  obtain ⟨valid, answers⟩ := obstacle_none.mp free
  exact stuck valid answers

end Network

namespace Cluster

variable {cluster : Cluster}

/-- The cluster after the server that is registered at an endpoint has seen to a call. -/
def served (now : UInt64) (endpoint : Endpoint) (asked : Call) (cluster : Cluster) : Cluster :=
  match cluster.network.callee endpoint with
  | none => cluster
  | some seat =>
    match cluster.servers[seat]? with
    | none => cluster
    | some server => cluster.settle seat (server.answer .never now asked)

theorem Seated.server (seated : cluster.Seated) {endpoint : Endpoint}
    (registered : cluster.network.Registers endpoint) :
    ∃ seat server, cluster.network.callee endpoint = some seat ∧ cluster.servers[seat]? = some server := by
  obtain ⟨seat, found⟩ := Option.isSome_iff_exists.mp (Network.callee_isSome.mpr registered)
  obtain ⟨registration, search, rfl⟩ := Option.map_eq_some_iff.mp found
  have inside := seated registration (List.mem_of_find?_eq_some search)
  exact ⟨registration.seat, _, found, List.getElem?_eq_getElem inside⟩

theorem Seated.served (seated : cluster.Seated) (now : UInt64) (endpoint : Endpoint) (asked : Call) :
    (cluster.served now endpoint asked).Seated := by
  unfold Cluster.served
  split
  · exact seated
  · split
    · exact seated
    · exact seated.settle _ _

theorem call_silent (now : UInt64) {endpoint : Endpoint} (asked : Call) {cause : NetworkError}
    (silent : cluster.network.silence endpoint = some cause) :
    call now endpoint asked cluster = (.error cause, cluster) := by
  have unreached : cluster.network.reach endpoint = .error cause := by
    unfold Network.silence at silent
    by_cases down : endpoint ∈ cluster.network.down
    · simp only [down, true_or, if_true, Option.some.injEq] at silent
      simp [Network.reach, down, silent]
    · cases called : cluster.network.callee endpoint with
      | none =>
        have unregistered : ¬ cluster.network.Registers endpoint := by simp [← Network.callee_isSome, called]
        simp only [unregistered, not_false_eq_true, or_true, if_true, Option.some.injEq] at silent
        simp [Network.reach, down, called, silent]
      | some seat =>
        have registered : cluster.network.Registers endpoint := by simp [← Network.callee_isSome, called]
        simp only [down, registered, not_true_eq_false, or_self, if_false, Option.ite_none_right_eq_some,
          Option.some.injEq] at silent
        simp [Network.reach, down, called, silent.1, silent.2]
  rw [call, unreached]

theorem call_served (seated : cluster.Seated) (now : UInt64) {endpoint : Endpoint} (asked : Call)
    (answers : cluster.network.Answers endpoint) :
    ∃ (seat : Nat) (server : Server), cluster.servers[seat]? = some server ∧
      cluster.served now endpoint asked = cluster.settle seat (server.answer .never now asked) ∧
      call now endpoint asked cluster =
        (.ok (server.answer .never now asked).answer, cluster.served now endpoint asked) := by
  obtain ⟨registered, up, awake⟩ := answers
  obtain ⟨seat, server, called, found⟩ := seated.server registered
  have reached : cluster.network.reach endpoint = .ok seat := by
    simp [Network.reach, up, called, awake]
  have after : cluster.served now endpoint asked = cluster.settle seat (server.answer .never now asked) := by
    simp only [served, called, found]
  refine ⟨seat, server, found, after, ?_⟩
  rw [after]
  simp only [call, reached, found]

theorem settle_idle {α : Type} {seat : Nat} {server : Server} (found : cluster.servers[seat]? = some server)
    (answer : α) : cluster.settle seat { answer, server, mail := [] } = cluster := by
  obtain ⟨inside, rfl⟩ := List.getElem?_eq_some_iff.mp found
  simp [settle, Post.handAll]

end Cluster

/-- Servers check a batch of a kind item by item. One that fails is refused, any other is answered item by item. -/
structure Operation.Checked {ρ α : Type} (operation : Operation ρ α) (check : Node → ρ → Except Refusal Unit) :
    Prop where
  silent : ∀ fault, operation.content (.fault fault) = none
  refused : ∀ (server : Server) now node group refusal, Server.checkAll (check node) group = .error refusal →
    server.answer .never now (operation.call node group) =
      { answer := .fault refusal.toError.toFault, server, mail := [] }
  answered : ∀ (server : Server) now node group, Server.checkAll (check node) group = .ok () →
    ∃ answers, operation.content (server.answer .never now (operation.call node group)).answer = some answers ∧
      answers.length = group.length

namespace Operation

theorem write_checked : write.Checked fun node => Server.checkWrite (.client node) where
  silent _ := rfl
  refused server now node writes refusal checked := by
    simp only [write_call, Server.answer, Server.write, checked]
    rfl
  answered server now node writes checked := by
    obtain ⟨store, _, shape⟩ := server.write_accepted now (Server.checkAll_ok.mp checked)
    refine ⟨server.holdings.results now writes, ?_, Holdings.results_length now _ writes⟩
    simp only [write_content, write_call, Server.answer, shape, Server.respond]

theorem read_checked : read.Checked fun _ _ => .ok () where
  silent _ := rfl
  refused server now node reads refusal checked := by
    rw [Server.checkAll_ok.mpr fun _ _ => rfl] at checked
    cases checked
  answered server now node reads _ := by
    obtain ⟨store, _, shape⟩ := server.read_answered now reads
    refine ⟨reads.map fun read => (server.holdings.entry read.key).read read.version now, ?_, List.length_map _⟩
    simp only [read_content, read_call, Server.answer, shape, Server.respond]

theorem remove_checked : remove.Checked fun _ => Server.checkRemoval where
  silent _ := rfl
  refused server now node removals refusal checked := by
    simp only [remove_call, Server.answer, Server.remove, checked]
    rfl
  answered server now node removals checked := by
    have sound : ∀ removal ∈ removals, removal.Sound := fun removal member =>
      Server.checkRemoval_ok.mp (Server.checkAll_ok.mp checked removal member)
    obtain ⟨store, _, shape⟩ := server.remove_accepted (.client node) sound
    refine ⟨server.holdings.struck removals, ?_, Holdings.struck_length _ removals⟩
    simp only [remove_content, remove_call, Server.answer, shape, Server.respond]

end Operation

namespace Failover

variable {σ ρ α : Type}

private theorem attempt_failed {action : Endpoint → σ → Except Error α × σ} {obstacle : Endpoint → Option Error}
    {endpoints : List Endpoint} {state : σ} (listed : endpoints ≠ [])
    (failed : ∀ endpoint ∈ endpoints, ∃ error, obstacle endpoint = some error ∧
      action endpoint state = (.error error, state)) (last : Error) :
    ∃ endpoint error, endpoints.getLast? = some endpoint ∧ obstacle endpoint = some error ∧
      attempt action last endpoints state = (.error error, state) := by
  induction endpoints generalizing last with
  | nil => exact absurd rfl listed
  | cons endpoint endpoints ih =>
    obtain ⟨error, known, first⟩ := failed endpoint List.mem_cons_self
    simp only [attempt, first]
    cases endpoints with
    | nil => exact ⟨endpoint, error, rfl, known, rfl⟩
    | cons next rest =>
      rw [List.getLast?_cons_cons]
      exact ih (List.cons_ne_nil next rest) (fun other member => failed other (List.mem_cons_of_mem _ member)) error

private theorem attempt_first {action : Endpoint → σ → Except Error α × σ} {answers : Endpoint → Bool}
    {endpoints : List Endpoint} {state final : σ} {endpoint : Endpoint} {answer : α}
    (failed : ∀ endpoint, answers endpoint = false → ∃ error, action endpoint state = (.error error, state))
    (found : endpoints.find? answers = some endpoint) (answered : action endpoint state = (.ok answer, final))
    (last : Error) : attempt action last endpoints state = (.ok answer, final) := by
  induction endpoints generalizing last with
  | nil => cases found
  | cons first endpoints ih =>
    rw [List.find?_cons] at found
    simp only [attempt]
    cases own : answers first with
    | true =>
      simp only [own, Option.some.injEq] at found
      rw [found, answered]
    | false =>
      simp only [own] at found
      obtain ⟨error, tried⟩ := failed first own
      rw [tried]
      exact ih found error

section Expect

variable {operation : Operation ρ α} {check : Node → ρ → Except Refusal Unit} {cluster : Cluster} {node : Node}
  {group : List ρ} {endpoint : Endpoint}

private theorem expect_obstructed (checked : operation.Checked check) (seated : cluster.Seated) (now : UInt64)
    {error : Error}
    (obstructed : cluster.network.obstacle (Server.checkAll (check node) group) endpoint = some error) :
    expect (Cluster.call now) operation.name operation.content (operation.call node group) endpoint cluster =
      (.error error, cluster) := by
  unfold Network.obstacle at obstructed
  cases silent : cluster.network.silence endpoint with
  | some cause =>
    simp only [silent, Option.some.injEq] at obstructed
    rw [expect, ask, Cluster.call_silent now _ silent, ← obstructed]
  | none =>
    obtain ⟨seat, server, found, after, called⟩ :=
      Cluster.call_served seated now (operation.call node group) (Network.silence_none.mp silent)
    cases valid : Server.checkAll (check node) group with
    | ok _ => simp [silent, valid] at obstructed
    | error refusal =>
      simp only [silent, valid, Option.some.injEq] at obstructed
      have refused := checked.refused server now node group refusal valid
      rw [expect, ask, called, after, refused, Cluster.settle_idle found, ← obstructed]
      simp only [Error.ofFault_toFault refusal.toError rfl]

private theorem expect_served (checked : operation.Checked check) (seated : cluster.Seated) (now : UInt64)
    (valid : Server.checkAll (check node) group = .ok ()) (answers : cluster.network.Answers endpoint) :
    ∃ found : List α, found.length = group.length ∧
      expect (Cluster.call now) operation.name operation.content (operation.call node group) endpoint cluster =
        (.ok found, cluster.served now endpoint (operation.call node group)) := by
  obtain ⟨seat, server, _, _, called⟩ := Cluster.call_served seated now (operation.call node group) answers
  obtain ⟨found, content, counted⟩ := checked.answered server now node group valid
  refine ⟨found, counted, ?_⟩
  rw [expect, ask, called]
  generalize (server.answer .never now (operation.call node group)).answer = answer at content
  cases answer with
  | fault fault =>
    rw [checked.silent] at content
    cases content
  | _ => simp only [content]

private theorem run_served (checked : operation.Checked check) (seated : cluster.Seated) (now : UInt64)
    (valid : Server.checkAll (check node) group = .ok ())
    (first : node.chain.find? (fun endpoint => cluster.network.Answers endpoint) = some endpoint) :
    ∃ found : List α, found.length = group.length ∧
      run (expect (Cluster.call now) operation.name operation.content (operation.call node group)) node cluster =
        (.ok found, cluster.served now endpoint (operation.call node group)) := by
  have answers : cluster.network.Answers endpoint := by simpa using List.find?_some first
  obtain ⟨found, counted, answered⟩ := expect_served checked seated now valid answers
  refine ⟨found, counted, attempt_first (fun other silent => ?_) first answered (nobody node)⟩
  obtain ⟨error, obstructed⟩ := Network.exists_obstacle fun _ => of_decide_eq_false silent
  exact ⟨error, expect_obstructed checked seated now obstructed⟩

private theorem run_stuck (checked : operation.Checked check) (seated : cluster.Seated) (now : UInt64)
    (stuck : Server.checkAll (check node) group = .ok () →
      node.chain.find? (fun endpoint => cluster.network.Answers endpoint) = none) :
    ∃ last error, node.chain.getLast? = some last ∧
      cluster.network.obstacle (Server.checkAll (check node) group) last = some error ∧
      run (expect (Cluster.call now) operation.name operation.content (operation.call node group)) node cluster =
        (.error error, cluster) := by
  refine attempt_failed (List.cons_ne_nil _ _) (fun endpoint listed => ?_) (nobody node)
  have blocked (valid : Server.checkAll (check node) group = .ok ()) : ¬ cluster.network.Answers endpoint := by
    simpa using List.find?_eq_none.mp (stuck valid) endpoint listed
  obtain ⟨error, obstructed⟩ := Network.exists_obstacle blocked
  exact ⟨error, obstructed, expect_obstructed checked seated now obstructed⟩

end Expect

end Failover

namespace Client

variable {ρ α : Type}

/-- Has groups carried out one after the other, each by the first holder of its shard that answers. Ends at the
first group that nobody answers or that holds an item that is turned away, if there is one, and tells which. -/
def carryOut (client : Client) (now : UInt64) (operation : Operation ρ α) (check : Node → ρ → Except Refusal Unit) :
    List (Fin client.topology.count × List ρ) → Cluster → Option (Fin client.topology.count × List ρ) × Cluster
  | [], cluster => (none, cluster)
  | (shard, group) :: rest, cluster =>
    let node := client.nodeOf shard
    match node.chain.find? fun endpoint => cluster.network.Answers endpoint, Server.checkAll (check node) group with
    | some endpoint, .ok () =>
      carryOut client now operation check rest (cluster.served now endpoint (operation.call node group))
    | _, _ => (some (shard, group), cluster)

section Portions

variable {client : Client} {operation : Operation ρ α} {check : Node → ρ → Except Refusal Unit} {cluster : Cluster}
  {items : List ρ} {portion : Portion client.topology.count}

private theorem runPortion_served (checked : operation.Checked check) (seated : cluster.Seated) (now : UInt64)
    (member : portion ∈ client.portions (items.map operation.key)) {endpoint : Endpoint}
    (valid : Server.checkAll (check (client.nodeOf portion.shard)) (members items portion.positions) = .ok ())
    (first : (client.nodeOf portion.shard).chain.find? (fun endpoint => cluster.network.Answers endpoint) =
      some endpoint) :
    ∃ found : List α, found.length = portion.positions.length ∧
      client.runPortion (Cluster.call now) operation items portion cluster =
        (.ok found, cluster.served now endpoint
          (operation.call (client.nodeOf portion.shard) (members items portion.positions))) := by
  obtain ⟨found, counted, ran⟩ := Failover.run_served checked seated now valid first
  rw [members_length member] at counted
  refine ⟨found, counted, ?_⟩
  unfold nodeOf at ran ⊢
  simp only [runPortion, ran, counted, if_true]

private theorem runPortion_stuck (checked : operation.Checked check) (seated : cluster.Seated) (now : UInt64)
    (stuck : Server.checkAll (check (client.nodeOf portion.shard)) (members items portion.positions) = .ok () →
      (client.nodeOf portion.shard).chain.find? (fun endpoint => cluster.network.Answers endpoint) = none) :
    ∃ last error, (client.nodeOf portion.shard).chain.getLast? = some last ∧
      cluster.network.obstacle
        (Server.checkAll (check (client.nodeOf portion.shard)) (members items portion.positions)) last = some error ∧
      client.runPortion (Cluster.call now) operation items portion cluster = (.error error, cluster) := by
  obtain ⟨last, error, final, obstructed, ran⟩ := Failover.run_stuck checked seated now stuck
  refine ⟨last, error, final, obstructed, ?_⟩
  unfold nodeOf at ran
  simp only [runPortion, ran]

end Portions

/-- How portions end that are carried out like their groups. All go through and fill their slots, or one is stuck
and the client tells what became of its last attempt. -/
private structure Followed (client : Client) (operation : Operation ρ α) (check : Node → ρ → Except Refusal Unit)
    (portions : List (Portion client.topology.count)) (slots : List (Option α))
    (reference : Option (Fin client.topology.count × List ρ) × Cluster)
    (result : Except Error (List (Option α)) × Cluster) : Prop where
  through : reference.1 = none → ∃ filled : List (Option α), result = (.ok filled, reference.2) ∧
    filled.length = slots.length ∧ ∀ position, Answered slots position ∨
      position < slots.length ∧ (∃ portion ∈ portions, position ∈ portion.positions) → Answered filled position
  stuck : ∀ shard group, reference.1 = some (shard, group) →
    ∃ last error, (client.nodeOf shard).chain.getLast? = some last ∧
      reference.2.network.obstacle (Server.checkAll (check (client.nodeOf shard)) group) last = some error ∧
      result = (.error error, reference.2)

private theorem runPortions_followed {client : Client} {operation : Operation ρ α}
    {check : Node → ρ → Except Refusal Unit} (checked : operation.Checked check) (now : UInt64) (items : List ρ)
    (portions : List (Portion client.topology.count))
    (listed : ∀ portion ∈ portions, portion ∈ client.portions (items.map operation.key)) {cluster : Cluster}
    (seated : cluster.Seated) (slots : List (Option α)) :
    Followed client operation check portions slots
      (client.carryOut now operation check
        (portions.map fun portion => (portion.shard, members items portion.positions)) cluster)
      (client.runPortions (Cluster.call now) operation items portions slots cluster) := by
  induction portions generalizing cluster slots with
  | nil =>
    constructor
    · intro _
      refine ⟨slots, rfl, rfl, ?_⟩
      rintro position (old | ⟨_, _, member, _⟩)
      · exact old
      · cases member
    · intro _ _ wrong
      cases wrong
  | cons portion portions ih =>
    have member := listed portion List.mem_cons_self
    have later := fun other inside => listed other (List.mem_cons_of_mem portion inside)
    have blocked (stuck : Server.checkAll (check (client.nodeOf portion.shard)) (members items portion.positions) =
          .ok () →
        (client.nodeOf portion.shard).chain.find? (fun endpoint => cluster.network.Answers endpoint) = none) :
        Followed client operation check (portion :: portions) slots
          (some (portion.shard, members items portion.positions), cluster)
          (client.runPortions (Cluster.call now) operation items (portion :: portions) slots cluster) := by
      obtain ⟨last, error, final, obstructed, ran⟩ := runPortion_stuck checked seated now stuck
      constructor
      · intro wrong
        cases wrong
      · intro shard group same
        cases same
        exact ⟨last, error, final, obstructed, by simp only [runPortions, ran]⟩
    simp only [List.map_cons, carryOut]
    cases first : (client.nodeOf portion.shard).chain.find? fun endpoint => cluster.network.Answers endpoint with
    | none => exact blocked fun _ => first
    | some endpoint =>
      cases valid : Server.checkAll (check (client.nodeOf portion.shard)) (members items portion.positions) with
      | error _ =>
        refine blocked fun sound => ?_
        rw [valid] at sound
        cases sound
      | ok _ =>
        obtain ⟨found, counted, ran⟩ := runPortion_served checked seated now member valid first
        have rest := ih later (seated.served now endpoint
          (operation.call (client.nodeOf portion.shard) (members items portion.positions)))
          (scatter slots portion.positions found)
        simp only [runPortions, ran]
        refine ⟨fun through => ?_, rest.stuck⟩
        obtain ⟨filled, same, long, all⟩ := rest.through through
        rw [scatter_length] at long all
        refine ⟨filled, same, long, ?_⟩
        rintro position (old | ⟨inside, other, owner, own⟩)
        · exact all position (Or.inl (scatter_answered old))
        · rcases List.mem_cons.mp owner with rfl | owner
          · exact all position (Or.inl (scatter_answers counted inside own))
          · exact all position (Or.inr ⟨inside, other, owner, own⟩)

/-- A batch does what carrying out its groups does. It succeeds if none of them is stuck, and else fails with what
became of the last attempt at that group; an attempt that fails changes nothing. -/
structure Executed (client : Client) (now : UInt64) (operation : Operation ρ α) (check : Node → ρ → Except Refusal Unit)
    (items : List ρ) (cluster : Cluster) (result : Except Error (List α) × Cluster) : Prop where
  state : result.2 = (client.carryOut now operation check (client.groups operation.key items) cluster).2
  succeeds_iff : (∃ answers, result.1 = .ok answers) ↔
    (client.carryOut now operation check (client.groups operation.key items) cluster).1 = none
  fails : ∀ shard group,
    (client.carryOut now operation check (client.groups operation.key items) cluster).1 = some (shard, group) →
      ∃ last error, (client.nodeOf shard).chain.getLast? = some last ∧
        result.2.network.obstacle (Server.checkAll (check (client.nodeOf shard)) group) last = some error ∧
        result.1 = .error error
  idle : ∀ {earlier after : Cluster} node group endpoint error, earlier.Seated →
    Failover.expect (Cluster.call now) operation.name operation.content (operation.call node group) endpoint earlier =
      (.error error, after) → after = earlier

theorem run_executed {operation : Operation ρ α} {check : Node → ρ → Except Refusal Unit}
    (checked : operation.Checked check) (client : Client) (now : UInt64) (items : List ρ) {cluster : Cluster}
    (seated : cluster.Seated) :
    client.Executed now operation check items cluster (client.run (Cluster.call now) operation items cluster) := by
  have followed := runPortions_followed checked now items (client.portions (items.map operation.key))
    (fun _ member => member) seated (List.replicate items.length none)
  rw [portions_groups] at followed
  have idle {earlier after : Cluster} (node : Node) (group : List ρ) (endpoint : Endpoint) (error : Error)
      (seated : earlier.Seated)
      (failed : Failover.expect (Cluster.call now) operation.name operation.content (operation.call node group)
        endpoint earlier = (.error error, after)) : after = earlier := by
    cases obstructed : earlier.network.obstacle (Server.checkAll (check node) group) endpoint with
    | some _ =>
      rw [Failover.expect_obstructed checked seated now obstructed] at failed
      cases failed
      rfl
    | none =>
      obtain ⟨valid, answers⟩ := Network.obstacle_none.mp obstructed
      obtain ⟨_, _, answered⟩ := Failover.expect_served checked seated now valid answers
      cases answered.symm.trans failed
  cases reference : client.carryOut now operation check (client.groups operation.key items) cluster with
  | mk stuck after =>
    rw [reference] at followed
    cases stuck with
    | none =>
      obtain ⟨slots, ran, long, all⟩ := followed.through rfl
      rw [List.length_replicate] at long all
      have every : ∀ position < slots.length, Answered slots position := by
        intro position inside
        rw [long] at inside
        exact all position (Or.inr ⟨inside, client.exists_portion operation.key inside⟩)
      obtain ⟨answers, full⟩ := exists_filled every
      have ran : client.run (Cluster.call now) operation items cluster = (.ok answers, after) := by
        simp only [run, ran, full]
      rw [ran]
      refine ⟨by rw [reference], by simp [reference], ?_, idle⟩
      intro _ _ wrong
      rw [reference] at wrong
      cases wrong
    | some group =>
      obtain ⟨last, error, final, obstructed, ran⟩ := followed.stuck group.1 group.2 rfl
      have ran : client.run (Cluster.call now) operation items cluster = (.error error, after) := by
        simp only [run, ran]
      rw [ran]
      refine ⟨by rw [reference], by simp [reference], ?_, idle⟩
      intro shard items same
      rw [reference] at same
      cases same
      exact ⟨last, error, final, obstructed, rfl⟩

/-- Batches of all three kinds are executed group by group, whoever is down, hung or not registered. -/
theorem batches_executed (client : Client) (now : UInt64) {cluster : Cluster} (seated : cluster.Seated) :
    (∀ writes, client.Executed now .write (fun node => Server.checkWrite (.client node)) writes cluster
      (client.write (Cluster.call now) writes cluster)) ∧
    (∀ reads, client.Executed now .read (fun _ _ => .ok ()) reads cluster
      (client.read (Cluster.call now) reads cluster)) ∧
    ∀ removals, client.Executed now .remove (fun _ => Server.checkRemoval) removals cluster
      (client.remove (Cluster.call now) removals cluster) :=
  ⟨fun writes => run_executed Operation.write_checked client now writes seated,
    fun reads => run_executed Operation.read_checked client now reads seated,
    fun removals => run_executed Operation.remove_checked client now removals seated⟩

end Client

namespace Ring

variable {ring : Ring} {cluster : Cluster}

/-- The first machine of a small ring is down and the second one hangs. -/
private def crippled : Chronicle :=
  .play .trio [(0, .down ⟨⟨"tcp://a"⟩, ⟨"queue://a"⟩⟩), (0, .hang ⟨⟨"tcp://b"⟩, ⟨"queue://b"⟩⟩)]

/-- The first two writes are for shards that the third machine has a copy of, the last one is turned away. -/
private def overreaching : List Write :=
  [.lasting "k3" [1] [], .lasting "k1" [2] [], .lasting "__ringkv:z" [3] []]

/-- The third machine takes in two groups. The third group is tried at the second machine last, which hangs. -/
theorem overreaching_executed :
    (Ring.trio.client.write (Cluster.call 0) overreaching crippled.cluster).1 =
        .error (.network (.timeout ⟨"tcp://b"⟩)) ∧
      (Ring.trio.client.write (Cluster.call 0) overreaching crippled.cluster).2.servers.map (fun server =>
        ["k3", "k1"].map fun key => (server.store.table.entry key).values.map (·.data)) =
          [[[], []], [[], []], [[[1]], [[2]]]] := by
  have reached : Ring.trio.Reached crippled := .play .trio _
  have executed := (Ring.trio.client.batches_executed 0 reached.ran.seated).1 overreaching
  have stuck : (Ring.trio.client.carryOut 0 .write (fun node => Server.checkWrite (.client node))
      (Ring.trio.client.groups Operation.write.key overreaching) crippled.cluster).1 =
        some (⟨2, by decide⟩, [.lasting "__ringkv:z" [3] []]) := by decide +kernel
  obtain ⟨last, error, final, obstructed, told⟩ := executed.fails _ _ stuck
  constructor
  · obtain rfl : (⟨"tcp://b"⟩ : Endpoint) = last := Option.some.inj final
    rw [executed.state] at obstructed
    have timeout : (Ring.trio.client.carryOut 0 .write (fun node => Server.checkWrite (.client node))
        (Ring.trio.client.groups Operation.write.key overreaching) crippled.cluster).2.network.obstacle
          (Server.checkAll (Server.checkWrite (.client (Ring.trio.client.nodeOf ⟨2, by decide⟩)))
            [.lasting "__ringkv:z" [3] []]) ⟨"tcp://b"⟩ = some (.network (.timeout ⟨"tcp://b"⟩)) := by decide +kernel
    rw [timeout] at obstructed
    rw [told, ← Option.some.inj obstructed]
  · rw [executed.state]
    decide +kernel

end Ring
end ReplicaRing
