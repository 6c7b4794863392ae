import Mathlib.Data.List.Perm.Subperm
import ReplicaRing.Cluster.Action
import ReplicaRing.Proofs.Routing

/-! What a bystander notes down while the servers of a cluster see to calls and to letters. What is worth a note is up
to the bystander. The cluster runs on as if nobody were there. -/

namespace ReplicaRing

/-- What a server is given to do: a call, which it answers, or the message of a letter. -/
inductive Task where
  | call (asked : Call) (answer : Answer)
  | mail (message : Message)

/-- A server that is about to see to a task. -/
structure Occasion where
  seat : Nat
  server : Server
  network : Network
  now : UInt64
  task : Task

structure Noted (ν : Type) where
  cluster : Cluster
  notes : List ν

namespace Noted

variable {ν : Type} (note : Occasion → Option ν) (now : UInt64)

def answering (cluster : Cluster) (seat : Nat) (server : Server) (asked : Call) : Occasion where
  seat := seat
  server := server
  network := cluster.network
  now := now
  task := .call asked (server.answer .never now asked).answer

def reading (cluster : Cluster) (seat : Nat) (server : Server) (letter : Letter) : Occasion where
  seat := seat
  server := server
  network := cluster.network
  now := now
  task := .mail letter.message

def called (endpoint : Endpoint) (asked : Call) (cluster : Cluster) : Option ν := do
  let seat ← (cluster.network.reach endpoint).toOption
  let server ← cluster.servers[seat]?
  note (answering now cluster seat server asked)

def opened (letter : Letter) (cluster : Cluster) : Option ν := do
  let seat ← cluster.network.addressee letter.target
  let server ← cluster.servers[seat]?
  note (reading now cluster seat server letter)

def jot (noted : Noted ν) (cluster : Cluster) (note : Option ν) : Noted ν where
  cluster := cluster
  notes := noted.notes ++ note.toList

/-- Notes with the mail put in another order, or some of it out of the way. -/
def sort (noted : Noted ν) (mailbox : List Letter) : Noted ν :=
  { noted with cluster := noted.cluster.mapNetwork fun network => { network with mailbox } }

def call : Transport (Noted ν) := fun endpoint asked noted =>
  let (answer, cluster) := Cluster.call now endpoint asked noted.cluster
  (answer, noted.jot cluster (called note now endpoint asked noted.cluster))

def deliverWithin : Nat → Noted ν → List Letter × Noted ν
  | 0, noted => ([], noted)
  | count + 1, noted =>
    match noted.cluster.network.mailbox with
    | [] => ([], noted)
    | letter :: rest =>
      if noted.cluster.network.down.contains letter.target then deliverWithin count (noted.sort (rest ++ [letter]))
      else
        match Cluster.apply now letter (noted.sort rest).cluster with
        | none => deliverWithin count (noted.sort rest)
        | some cluster =>
          let fresh := opened note now letter (noted.sort rest).cluster
          let (applied, final) := deliverWithin count (noted.jot cluster fresh)
          (letter :: applied, final)

def step (client : Client) (action : Action) (noted : Noted ν) : Reply × Noted ν :=
  match action with
  | .write writes =>
    let (results, noted) := client.write (call note now) writes noted
    (.written results, noted)
  | .read reads =>
    let (found, noted) := client.read (call note now) reads noted
    (.values found, noted)
  | .remove removals =>
    let (flags, noted) := client.remove (call note now) removals noted
    (.removed flags, noted)
  | .deliver =>
    let (letters, noted) := deliverWithin note now noted.cluster.network.pending noted
    (.delivered letters, noted)
  | .down address => (.done, { noted with cluster := noted.cluster.mapNetwork (·.takeDown address) })
  | .up address => (.done, { noted with cluster := noted.cluster.mapNetwork (·.bringUp address) })
  | .hang address => (.done, { noted with cluster := noted.cluster.mapNetwork (·.hang address) })

@[simp] theorem jot_cluster (noted : Noted ν) (cluster : Cluster) (note : Option ν) :
    (noted.jot cluster note).cluster = cluster := rfl

@[simp] theorem jot_notes (noted : Noted ν) (cluster : Cluster) (note : Option ν) :
    (noted.jot cluster note).notes = noted.notes ++ note.toList := rfl

theorem call_forgets : Forgets cluster (call note now) (Cluster.call now) :=
  fun _ _ _ => rfl

theorem deliverWithin_forgets (count : Nat) (noted : Noted ν) :
    (deliverWithin note now count noted).map id cluster = Cluster.deliverWithin now count noted.cluster := by
  induction count generalizing noted with
  | zero => rfl
  | succ count ih =>
    simp only [deliverWithin, Cluster.deliverWithin]
    cases noted.cluster.network.mailbox with
    | nil => rfl
    | cons letter rest =>
      simp only
      split
      · exact ih _
      · have same : (noted.sort rest).cluster =
            { noted.cluster with network := { noted.cluster.network with mailbox := rest } } := rfl
        rw [← same]
        cases Cluster.apply now letter (noted.sort rest).cluster with
        | none => exact ih _
        | some cluster =>
          have later := ih (noted.jot cluster (opened note now letter (noted.sort rest).cluster))
          exact congrArg (fun final : List Letter × Cluster => (letter :: final.1, final.2)) later

/-- A step is the same whether or not anything is noted down about it. -/
theorem step_forgets (client : Client) (action : Action) (noted : Noted ν) :
    (step note now client action noted).map id cluster = Cluster.step client now action noted.cluster := by
  have batch {ρ α : Type} (operation : Operation ρ α) (items : List ρ) :
      (client.run (call note now) operation items noted).map id cluster =
        client.run (Cluster.call now) operation items noted.cluster :=
    Client.run_forgets (call_forgets note now) items noted
  cases action with
  | write writes => exact congrArg (Prod.map Reply.written id) (batch .write writes)
  | read reads => exact congrArg (Prod.map Reply.values id) (batch .read reads)
  | remove removals => exact congrArg (Prod.map Reply.removed id) (batch .remove removals)
  | deliver => exact congrArg (Prod.map Reply.delivered id) (deliverWithin_forgets note now _ noted)
  | _ => rfl

theorem step_after (client : Client) (action : Action) (noted : Noted ν) :
    (step note now client action noted).2.cluster = (Cluster.step client now action noted.cluster).2 :=
  congrArg Prod.snd (step_forgets note now client action noted)

/-- A call is not answered and changes nothing, or the server at some seat answers it. -/
theorem call_cases (endpoint : Endpoint) (asked : Call) (noted : Noted ν) :
    (∃ error, call note now endpoint asked noted = (.error error, noted)) ∨
      ∃ (seat : Nat) (server : Server), noted.cluster.network.reach endpoint = .ok seat ∧
        noted.cluster.servers[seat]? = some server ∧
        call note now endpoint asked noted =
          (.ok (server.answer .never now asked).answer,
            noted.jot (noted.cluster.settle seat (server.answer .never now asked))
              (note (answering now noted.cluster seat server asked))) := by
  cases reached : noted.cluster.network.reach endpoint with
  | error error => exact Or.inl ⟨error, by simp [call, called, Cluster.call, jot, reached, Except.toOption]⟩
  | ok seat =>
    cases found : noted.cluster.servers[seat]? with
    | none =>
      refine Or.inl ⟨.unreachable endpoint, ?_⟩
      simp [call, called, Cluster.call, jot, reached, Except.toOption, found]
    | some server =>
      exact Or.inr ⟨seat, server, rfl, found, by simp [call, called, Cluster.call, reached, Except.toOption, found]⟩

theorem apply_cases (letter : Letter) (cluster : Cluster) :
    Cluster.apply now letter cluster = none ∨
      ∃ (seat : Nat) (server : Server), cluster.network.addressee letter.target = some seat ∧
        cluster.servers[seat]? = some server ∧
        Cluster.apply now letter cluster = some (cluster.settle seat (server.receive .never now letter.message)) ∧
        opened note now letter cluster = note (reading now cluster seat server letter) := by
  cases taken : cluster.network.addressee letter.target with
  | none => exact Or.inl (by simp [Cluster.apply, taken])
  | some seat =>
    cases found : cluster.servers[seat]? with
    | none => exact Or.inl (by simp [Cluster.apply, taken, found])
    | some server =>
      exact Or.inr ⟨seat, server, rfl, found, by simp [Cluster.apply, taken, found], by simp [opened, taken, found]⟩

/-- What stays true when mail is sorted or given up and when a server reads a letter, stays true in a delivery. -/
theorem deliverWithin_keeps (property : Noted ν → Prop)
    (sorted : ∀ (noted : Noted ν) (mailbox : List Letter), mailbox.Subperm noted.cluster.network.mailbox →
      property noted → property (noted.sort mailbox))
    (read : ∀ (noted : Noted ν) (letter : Letter) (rest : List Letter) (seat : Nat) (server : Server),
      noted.cluster.network.mailbox = letter :: rest → noted.cluster.network.addressee letter.target = some seat →
      noted.cluster.servers[seat]? = some server → property noted →
      property (noted.jot ((noted.sort rest).cluster.settle seat (server.receive .never now letter.message))
        (note (reading now (noted.sort rest).cluster seat server letter))))
    (count : Nat) {noted : Noted ν} (before : property noted) :
    property (deliverWithin note now count noted).2 := by
  induction count generalizing noted with
  | zero => exact before
  | succ count ih =>
    simp only [deliverWithin]
    cases mail : noted.cluster.network.mailbox with
    | nil => exact before
    | cons letter rest =>
      simp only
      split
      · exact ih (sorted noted _ (mail ▸ (List.perm_append_singleton letter rest).subperm) before)
      · rcases apply_cases note now letter (noted.sort rest).cluster with
          lost | ⟨seat, server, addressed, found, applied, same⟩
        · simp only [lost]
          exact ih (sorted noted _ (mail ▸ (List.sublist_cons_self letter rest).subperm) before)
        · simp only [applied, same]
          exact ih (read noted letter rest seat server mail addressed found before)

/-- What stays true when a server sees to a call or reads a letter, when mail is sorted or given up and when machines
fail and come back, stays true in a step. -/
theorem step_keeps (property : Noted ν → Prop)
    (called : ∀ (noted : Noted ν) (endpoint : Endpoint) (asked : Call), property noted →
      property (call note now endpoint asked noted).2)
    (sorted : ∀ (noted : Noted ν) (mailbox : List Letter), mailbox.Subperm noted.cluster.network.mailbox →
      property noted → property (noted.sort mailbox))
    (read : ∀ (noted : Noted ν) (letter : Letter) (rest : List Letter) (seat : Nat) (server : Server),
      noted.cluster.network.mailbox = letter :: rest → noted.cluster.network.addressee letter.target = some seat →
      noted.cluster.servers[seat]? = some server → property noted →
      property (noted.jot ((noted.sort rest).cluster.settle seat (server.receive .never now letter.message))
        (note (reading now (noted.sort rest).cluster seat server letter))))
    (changed : ∀ (noted : Noted ν) (change : Network → Network),
      (change noted.cluster.network).roster = noted.cluster.network.roster →
      (change noted.cluster.network).mailbox = noted.cluster.network.mailbox →
      property noted → property { noted with cluster := noted.cluster.mapNetwork change })
    (client : Client) (action : Action) {noted : Noted ν} (before : property noted) :
    property (step note now client action noted).2 := by
  have batch {ρ α : Type} (operation : Operation ρ α) (items : List ρ) :
      property (client.run (call note now) operation items noted).2 :=
    Client.run_keeps property (fun _ _ endpoint noted _ _ kept => called noted endpoint _ kept) before
  cases action with
  | write writes => exact batch .write writes
  | read reads => exact batch .read reads
  | remove removals => exact batch .remove removals
  | deliver => exact deliverWithin_keeps note now property sorted read _ before
  | down address => exact changed noted (·.takeDown address) rfl rfl before
  | up address => exact changed noted (·.bringUp address) rfl rfl before
  | hang address => exact changed noted (·.hang address) rfl rfl before

end Noted
end ReplicaRing
