import Mathlib.Data.List.Forall2
import ReplicaRing.Proofs.Coherence
import ReplicaRing.Proofs.Routing
import ReplicaRing.Proofs.Chronicles

/-! Where the stores of a cluster come from. Whatever a server is asked, and whatever fails meanwhile, it does to its
store what some batches do that are committed or given up. So in every run the store in each seat has come from a new
one that way, and what all batches keep holds of it. -/

namespace ReplicaRing

namespace Batch

variable {ρ α : Type}

/-- All that is done to a batch is to call it some times. -/
def Calling (work : Batch → Except StoreFault α × Batch) : Prop :=
  ∀ batch, ∃ calls : List (UInt64 × StoreCall), (work batch).2 = batch.acts (calls.map .call)

theorem calling_idle (answer : Batch → Except StoreFault α) : Calling fun batch => (answer batch, batch) :=
  fun _ => ⟨[], rfl⟩

theorem calling_write (write : Write) (now : UInt64) : Calling (·.write write now) :=
  fun _ => ⟨[(now, .write write)], rfl⟩

theorem calling_remove (removal : Removal) : Calling (·.remove removal) :=
  fun _ => ⟨[(0, .remove removal)], rfl⟩

theorem Calling.guard {step : Batch → Except StoreFault α × Batch} (calling : Calling step) (failure : Option String) :
    Calling (Outage.guard failure step) := by
  cases failure with
  | some _ => exact calling_idle _
  | none => exact calling

theorem Calling.each {step : Nat → ρ → Batch → Except StoreFault α × Batch}
    (calling : ∀ index item, Calling (step index item)) (items : List ρ) (index : Nat) :
    Calling (Batch.each step index items) := by
  induction items generalizing index with
  | nil => exact calling_idle _
  | cons item items ih =>
    intro batch
    obtain ⟨calls, first⟩ := calling index item batch
    obtain ⟨others, rest⟩ := ih (index + 1) (step index item batch).2
    simp only [Batch.each]
    generalize step index item batch = taken at first rest ⊢
    obtain ⟨answer, next⟩ := taken
    cases answer with
    | error _ => exact ⟨calls, first⟩
    | ok _ =>
      simp only at first rest ⊢
      generalize Batch.each step (index + 1) items next = later at rest ⊢
      obtain ⟨answers, last⟩ := later
      refine ⟨calls ++ others, ?_⟩
      rw [List.map_append, acts_append, ← first, ← rest]
      cases answers <;> rfl

end Batch

namespace Store

variable {α : Type} {store next last : Store}

/-- Some batches lead from one store to the other, and the last of them has ended. -/
def Leads (store next : Store) : Prop :=
  ∃ acts, store.openBatch.acts acts = next.openBatch

theorem Leads.refl (store : Store) : store.Leads store :=
  ⟨[], rfl⟩

theorem Leads.trans (earlier : store.Leads next) (later : next.Leads last) : store.Leads last := by
  obtain ⟨acts, first⟩ := earlier
  obtain ⟨others, second⟩ := later
  exact ⟨acts ++ others, by rw [Batch.acts_append, first, second]⟩

theorem Leads.after (leads : store.Leads next) : ∃ acts, next = store.after acts := by
  obtain ⟨acts, same⟩ := leads
  exact ⟨acts, (congrArg Batch.store same).symm⟩

/-- A batch that was called some times is committed or given up. -/
theorem leads_ended {calls : List (UInt64 × StoreCall)} {batch : Batch}
    (called : batch = store.openBatch.acts (calls.map .call)) :
    store.Leads batch.commit ∧ store.Leads batch.drop := by
  have ended (ending : Act) : store.openBatch.acts (calls.map .call ++ [ending]) = batch.act ending := by
    rw [Batch.acts_append, ← called]
    rfl
  exact ⟨⟨_, ended .commit⟩, ⟨_, ended .drop⟩⟩

variable {work : Batch → Except StoreFault α × Batch}

theorem transact_leads (calling : Batch.Calling work) (store : Store) (outage : Outage) :
    store.Leads (store.transact outage work).2 := by
  obtain ⟨calls, called⟩ := calling store.openBatch
  obtain ⟨committed, dropped⟩ := leads_ended called
  unfold transact
  split
  · exact .refl store
  · generalize work store.openBatch = worked at committed dropped ⊢
    obtain ⟨answer, batch⟩ := worked
    cases answer with
    | error _ => exact dropped
    | ok _ =>
      simp only
      split
      · exact dropped
      · exact committed

theorem consult_leads (calling : Batch.Calling work) (store : Store) (outage : Outage) :
    store.Leads (store.consult outage work).2 := by
  obtain ⟨calls, called⟩ := calling store.openBatch
  unfold consult
  split
  · exact .refl store
  · exact (leads_ended called).2

end Store

namespace Server

variable (server : Server) (outage : Outage) (now : UInt64)

private theorem commit_leads {ρ α : Type} (items : List ρ) {step : Nat → ρ → Batch → Except StoreFault α × Batch}
    (calling : ∀ index item, Batch.Calling (step index item)) (mail : List α → List Letter) :
    server.store.Leads (server.commit outage items step mail).server.store := by
  have leads := Store.transact_leads (Batch.Calling.each calling items 0) server.store outage
  unfold commit
  generalize server.store.transact outage (Batch.each step 0 items) = worked at leads ⊢
  obtain ⟨answer, store⟩ := worked
  cases answer with
  | error _ => exact leads
  | ok _ => exact leads

theorem write_leads (origin : Origin) (writes : List Write) :
    server.store.Leads (server.write outage now origin writes).server.store := by
  unfold write
  split
  · exact .refl server.store
  · exact server.commit_leads outage writes (fun _ write => (Batch.calling_write write now).guard _) _

theorem remove_leads (origin : Origin) (removals : List Removal) :
    server.store.Leads (server.remove outage origin removals).server.store := by
  unfold remove
  split
  · exact .refl server.store
  · exact server.commit_leads outage removals (fun _ removal => (Batch.calling_remove removal).guard _) _

theorem read_leads (reads : List Read) : server.store.Leads (server.read outage now reads).server.store := by
  apply Store.consult_leads
  exact Batch.Calling.each (fun _ _ => (Batch.calling_idle _).guard _) reads 0

theorem answer_leads (asked : Call) : server.store.Leads (server.answer outage now asked).server.store := by
  cases asked with
  | write origin writes => exact server.write_leads outage now origin writes
  | read reads => exact server.read_leads outage now reads
  | remove origin removals => exact server.remove_leads outage origin removals
  | nodes => exact .refl server.store
  | nodeAt _ => exact .refl server.store

theorem receive_leads (message : Message) : server.store.Leads (server.receive outage now message).server.store := by
  cases message with
  | writes writes => exact server.write_leads outage now .peer writes
  | removals removals => exact server.remove_leads outage .peer removals

end Server

namespace Cluster

variable {topology : Topology} {setup : Setup} {cluster : Cluster}

/-- There is a server for each node, whose store comes from a new one. -/
def Descended (topology : Topology) (setup : Setup) (cluster : Cluster) : Prop :=
  List.Forall₂ (fun node server => (Store.fresh (setup.identity node)).Leads server.store) topology.nodes cluster.servers

namespace Descended

theorem settle (descended : cluster.Descended topology setup) {seat : Nat} {server : Server} {α : Type}
    {outcome : Outcome α} (found : cluster.servers[seat]? = some server)
    (leads : server.store.Leads outcome.server.store) : (cluster.settle seat outcome).Descended topology setup := by
  obtain ⟨inside, rfl⟩ := List.getElem?_eq_some_iff.mp found
  obtain ⟨counted, each⟩ := List.forall₂_iff_get.mp descended
  refine List.forall₂_iff_get.mpr ⟨counted.trans (List.length_set ..).symm, ?_⟩
  intro other listed seated
  simp only [List.get_eq_getElem, Cluster.settle, List.getElem_set]
  split
  · next here =>
    subst here
    exact (each seat listed inside).trans leads
  · exact each other listed (by simpa [Cluster.settle] using seated)

theorem call (descended : cluster.Descended topology setup) (now : UInt64) (endpoint : Endpoint) (asked : Call) :
    (Cluster.call now endpoint asked cluster).2.Descended topology setup := by
  unfold Cluster.call
  split
  · exact descended
  · split
    · exact descended
    · next server found => exact descended.settle found (server.answer_leads .never now asked)

theorem step (descended : cluster.Descended topology setup) (client : Client) (now : UInt64) (action : Action) :
    (Cluster.step client now action cluster).2.Descended topology setup := by
  let watched : Noted Unit := { cluster, notes := [] }
  have kept : (Noted.step (fun _ => none) now client action watched).2.cluster.Descended topology setup := by
    refine Noted.step_keeps (fun _ => none) now (fun noted => noted.cluster.Descended topology setup)
      (fun _ endpoint asked before => before.call now endpoint asked) (fun _ _ _ before => before) ?_
      (fun _ _ _ _ before => before) client action descended
    intro earlier letter rest seat server _ _ found before
    -- only the mail of the cluster changes when a letter is taken up
    have opened : (earlier.sort rest).cluster.Descended topology setup := before
    exact opened.settle found (server.receive_leads .never now letter.message)
  rw [Noted.step_after] at kept
  exact kept

end Descended

theorem start_descended (started : start topology setup = .ok cluster) : cluster.Descended topology setup := by
  have all (earlier rest : List Node) (before final : Cluster)
      (some : List.Forall₂ (fun node server => (Store.fresh (setup.identity node)).Leads server.store) earlier
        before.servers)
      (ran : startAll topology setup rest before = .ok final) :
      List.Forall₂ (fun node server => (Store.fresh (setup.identity node)).Leads server.store) (earlier ++ rest)
        final.servers := by
    induction rest generalizing earlier before with
    | nil =>
      cases ran
      rw [List.append_nil]
      exact some
    | cons node rest ih =>
      simp only [startAll, bind, Except.bind] at ran
      split at ran
      · cases ran
      · next server own =>
        have new : server.store = .fresh (setup.identity node) := by
          obtain ⟨_, _, rfl⟩ := Server.start_ok.mp own
          rfl
        rw [List.append_cons]
        refine ih _ _ (List.rel_append some (.cons ?_ .nil)) ran
        rw [new]
        exact .refl _
  exact all [] topology.nodes _ cluster .nil started

namespace Ran

variable {chronicle : Chronicle}

theorem descended (ran : Ran topology setup chronicle) : chronicle.cluster.Descended topology setup := by
  induction ran with
  | start started => exact start_descended started
  | step client now action _ ih => exact ih.step client now action

theorem store_after (ran : Ran topology setup chronicle) {server : Server} (seated : server ∈ chronicle.cluster.servers) :
    ∃ id acts, server.store = (Store.fresh id).after acts := by
  obtain ⟨seat, inside, rfl⟩ := List.getElem_of_mem seated
  obtain ⟨counted, each⟩ := List.forall₂_iff_get.mp ran.descended
  obtain ⟨acts, same⟩ := (each seat (counted ▸ inside) inside).after
  exact ⟨_, acts, same⟩

/-- In every run, no server keeps a key that there is nothing to tell about, and all that it keeps fits together. -/
theorem stores_coherent (ran : Ran topology setup chronicle) {server : Server}
    (seated : server ∈ chronicle.cluster.servers) :
    server.store.table.Tidy ∧ ∀ key, (server.store.table.entry key).Coherent key := by
  obtain ⟨id, acts, same⟩ := ran.store_after seated
  rw [same]
  exact ⟨Store.after_tidy Table.tidy_empty acts, fun key => (Store.after_coherent id acts key).1⟩

end Ran
end Cluster
end ReplicaRing
