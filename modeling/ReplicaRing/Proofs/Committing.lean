import ReplicaRing.Proofs.Playing

/-! A store may fail while it takes in a batch: when the batch is opened, at any of its steps, or when it is
committed. A server that meets a failure answers with it, holds what it held before and tells nobody. Otherwise
it has done all that was asked, and those who refuse its mail keep nobody else from getting theirs. -/

namespace ReplicaRing

namespace Post

variable {σ : Type} (post : Post σ)

/-- A post that also keeps a log of the letters that are handed to it, with what becomes of each. -/
def logged : Post (σ × List (Letter × Except NetworkError Unit)) where
  hand letter state :=
    let (taken, after) := post.hand letter state.1
    (taken, after, state.2 ++ [(letter, taken)])

/-- Keeping a log makes no difference, and each letter is handed over once, in turn. -/
theorem handAll_logged (letters : List Letter) (state : σ) (log : List (Letter × Except NetworkError Unit)) :
    (post.logged.handAll letters (state, log)).1 = post.handAll letters state ∧
      (post.logged.handAll letters (state, log)).2.map (·.1) = log.map (·.1) ++ letters := by
  induction letters generalizing state log with
  | nil => exact ⟨rfl, (List.append_nil _).symm⟩
  | cons letter letters ih =>
    obtain ⟨same, handed⟩ := ih (post.hand letter state).2 (log ++ [(letter, (post.hand letter state).1)])
    refine ⟨same, handed.trans ?_⟩
    simp

end Post

theorem Recorder.handAll_post (letters : List Letter) (recorder : Recorder) :
    Recorder.post.handAll letters recorder =
      { recorder with
        postings := recorder.postings ++ letters.map fun letter =>
          { letter, accepted := !recorder.refusing.contains letter.target } } := by
  induction letters generalizing recorder with
  | nil => simp [Post.handAll]
  | cons letter letters ih =>
    rw [Post.handAll, ih]
    simp only [Recorder.post]
    split
    · next refused => simp only [refused, List.append_assoc, List.singleton_append, List.map_cons, Bool.not_true]
    · next taken => simp only [taken, List.append_assoc, List.singleton_append, List.map_cons, Bool.not_false]

theorem Server.letters_targets (dispatch : Dispatch) (message : Message) :
    (letters dispatch message).map (·.target) = if message.isEmpty then [] else dispatch.targets := by
  unfold letters
  split
  · rfl
  · simp [Function.comp_def]

/-- Nothing fails while a batch is opened, so many steps are taken and the batch is committed. -/
structure Outage.Spares (outage : Outage) (failing : Nat → Option String) (count : Nat) : Prop where
  opening : outage.opening = none
  steps : ∀ index < count, failing index = none
  commit : outage.commit = none

section Steps

variable {ρ α : Type} {step : ρ → Batch → Except StoreFault α × Batch} {failing : Nat → Option String}
  {items : List ρ}

private theorem guard_spared (batch : Batch) {item : ρ} {failure : Option String} (spared : failure = none) :
    Outage.guard failure (step item) batch = step item batch := by
  rw [spared, Outage.guard]

private theorem each_spared (index : Nat) (batch : Batch)
    (spared : ∀ offset < items.length, failing (index + offset) = none) :
    Batch.each (fun index item => Outage.guard (failing index) (step item)) index items batch =
      Batch.each (fun _ => step) index items batch := by
  induction items generalizing index batch with
  | nil => rfl
  | cons item items ih =>
    have first : Outage.guard (failing index) (step item) batch = step item batch :=
      guard_spared batch (spared 0 (Nat.succ_pos _))
    have later (batch : Batch) := ih (index + 1) batch fun offset inside => by
      rw [Nat.add_assoc, Nat.add_comm 1]
      exact spared (offset + 1) (Nat.succ_lt_succ inside)
    simp only [Batch.each, first, later]

private theorem each_struck {index offset : Nat} (batch : Batch) (inside : offset < items.length)
    (struck : failing (index + offset) ≠ none) :
    ∃ fault, (Batch.each (fun index item => Outage.guard (failing index) (step item)) index items batch).1 =
      .error fault := by
  induction items generalizing index offset batch with
  | nil => cases inside
  | cons item items ih =>
    simp only [Batch.each]
    cases taken : Outage.guard (failing index) (step item) batch with
    | mk answer next =>
      cases answer with
      | error fault => exact ⟨fault, rfl⟩
      | ok answer =>
        cases offset with
        | zero =>
          obtain ⟨cause, failed⟩ := Option.ne_none_iff_exists'.mp struck
          rw [Nat.add_zero] at failed
          simp only [failed, Outage.guard] at taken
          cases taken
        | succ offset =>
          rw [← Nat.add_assoc, Nat.add_right_comm] at struck
          obtain ⟨fault, failed⟩ := ih next (Nat.lt_of_succ_lt_succ inside) struck
          simp only
          generalize Batch.each _ (index + 1) items next = rest at failed
          obtain ⟨later, last⟩ := rest
          obtain rfl : later = .error fault := failed
          exact ⟨fault, rfl⟩

private theorem each_store (kept : ∀ item batch, (step item batch).2.store = batch.store) (index : Nat)
    (batch : Batch) :
    (Batch.each (fun index item => Outage.guard (failing index) (step item)) index items batch).2.store =
      batch.store := by
  have guarded (index : Nat) (item : ρ) (batch : Batch) :
      (Outage.guard (failing index) (step item) batch).2.store = batch.store := by
    unfold Outage.guard
    split
    · rfl
    · exact kept item batch
  induction items generalizing index batch with
  | nil => rfl
  | cons item items ih =>
    have first := guarded index item batch
    simp only [Batch.each]
    generalize Outage.guard (failing index) (step item) batch = taken at first
    obtain ⟨answer, next⟩ := taken
    cases answer with
    | error fault => exact first
    | ok answer =>
      have rest := ih (index + 1) next
      simp only
      generalize Batch.each _ (index + 1) items next = later at rest ⊢
      obtain ⟨answers, last⟩ := later
      cases answers with
      | error _ => exact rest.trans first
      | ok _ => exact rest.trans first

variable (server : Server) {outage : Outage} (mail : List α → List Letter)

private theorem commit_spared (spared : outage.Spares failing items.length) :
    server.commit outage items (fun index item => Outage.guard (failing index) (step item)) mail =
      server.commit .never items (fun _ => step) mail := by
  have steps : Batch.each (fun index item => Outage.guard (failing index) (step item)) 0 items server.store.openBatch =
      Batch.each (fun _ => step) 0 items server.store.openBatch := by
    apply each_spared
    intro offset inside
    rw [Nat.zero_add]
    exact spared.steps offset inside
  simp only [Server.commit, Store.transact, spared.opening, spared.commit, steps, Outage.never]

private theorem commit_struck (kept : ∀ item batch, (step item batch).2.store = batch.store)
    (struck : ¬ outage.Spares failing items.length) :
    ∃ fault : StoreFault, ∃ store : Store, store.table = server.store.table ∧
      server.commit outage items (fun index item => Outage.guard (failing index) (step item)) mail =
        { answer := .error fault.toError, server := { server with store }, mail := [] } := by
  have under : (Batch.each (fun index item => Outage.guard (failing index) (step item)) 0 items
      server.store.openBatch).2.store = server.store := each_store kept 0 _
  have failed (inside : ∃ index < items.length, failing index ≠ none) :
      ∃ fault, (Batch.each (fun index item => Outage.guard (failing index) (step item)) 0 items
        server.store.openBatch).1 = .error fault := by
    obtain ⟨index, inside, fails⟩ := inside
    exact each_struck server.store.openBatch inside (by rwa [Nat.zero_add])
  simp only [Server.commit, Store.transact]
  cases opening : outage.opening with
  | some cause => exact ⟨.failing cause, server.store, rfl, rfl⟩
  | none =>
    generalize Batch.each _ 0 items server.store.openBatch = worked at under failed ⊢
    obtain ⟨answer, batch⟩ := worked
    have dropped : batch.drop.table = server.store.table := congrArg (·.table) under
    cases answer with
    | error fault => exact ⟨fault, batch.drop, dropped, rfl⟩
    | ok answers =>
      cases commit : outage.commit with
      | some cause => exact ⟨.failing cause, batch.drop, dropped, rfl⟩
      | none =>
        refine absurd ⟨opening, ?_, commit⟩ struck
        intro index inside
        by_contra fails
        obtain ⟨fault, wrong⟩ := failed ⟨index, inside, fails⟩
        cases wrong

end Steps

theorem Holdings.results_length (now : UInt64) (held : Holdings) (writes : List Write) :
    (held.results now writes).length = writes.length := by
  induction writes generalizing held with
  | nil => rfl
  | cons write writes ih => simp only [results, List.length_cons, ih]

theorem Holdings.struck_length (held : Holdings) (removals : List Removal) :
    (held.struck removals).length = removals.length := by
  induction removals generalizing held with
  | nil => rfl
  | cons removal removals ih => simp only [struck, List.length_cons, ih]

/-- What becomes of a batch: it fits, and all of it is done and told of, or else nothing is. -/
structure AllOrNothing {ρ α : Type} (server : Server) (items : List ρ) (fits : Prop) (answers : List α)
    (held : Holdings) (mail : List Letter) (outcome : Outcome (Except Error (List α))) : Prop where
  done_iff : (∃ results, outcome.answer = .ok results) ↔ fits
  undone : ∀ error, outcome.answer = .error error →
    (∀ key, outcome.server.store.table.entry key = server.store.table.entry key) ∧
      outcome.server.store.size = server.store.size ∧ outcome.mail = []
  done : ∀ results, outcome.answer = .ok results →
    results.length = items.length ∧ results = answers ∧ outcome.server.holdings = held ∧ outcome.mail = mail
  targets : (outcome.mail.map (·.target)).Nodup
  offered : ∀ {σ : Type} (post : Post σ) state,
    (post.logged.handAll outcome.mail (state, [])).1 = post.handAll outcome.mail state ∧
      (post.logged.handAll outcome.mail (state, [])).2.map (·.1) = outcome.mail
  recorded : ∀ refusing postings, (Recorder.post.handAll outcome.mail { refusing, postings }).postings =
    postings ++ outcome.mail.map fun letter => { letter, accepted := !refusing.contains letter.target }

section Batches

variable {ρ α : Type} {server : Server} {items : List ρ} {fits : Prop} {answers : List α} {held : Holdings}
  {mail : List Letter} {outcome : Outcome (Except Error (List α))}

private theorem nothing (unfit : ¬ fits)
    (failed : ∃ error, ∃ store : Store, store.table = server.store.table ∧
      outcome = { answer := .error error, server := { server with store }, mail := [] }) :
    AllOrNothing server items fits answers held mail outcome := by
  obtain ⟨error, store, same, rfl⟩ := failed
  refine ⟨⟨?_, fun fit => absurd fit unfit⟩, ?_, ?_, List.nodup_nil, fun _ _ => ⟨rfl, rfl⟩, ?_⟩
  · rintro ⟨_, wrong⟩
    cases wrong
  · intro _ _
    exact ⟨fun key => by rw [same], by rw [Store.size, Store.size, same], rfl⟩
  · intro _ wrong
    cases wrong
  · intro refusing postings
    rw [Recorder.handAll_post]

private theorem all (fit : fits) (counted : answers.length = items.length) (distinct : (mail.map (·.target)).Nodup)
    (worked : ∃ store : Store, store.holdings = held ∧
      outcome = { answer := .ok answers, server := { server with store }, mail }) :
    AllOrNothing server items fits answers held mail outcome := by
  obtain ⟨store, same, rfl⟩ := worked
  refine ⟨⟨fun _ => fit, fun _ => ⟨answers, rfl⟩⟩, ?_, ?_, distinct,
    fun post state => post.handAll_logged mail state [], ?_⟩
  · intro _ wrong
    cases wrong
  · intro results answered
    cases answered
    exact ⟨counted, rfl, same, rfl⟩
  · intro refusing postings
    rw [Recorder.handAll_post]

private theorem checked_commit {outage : Outage} {failing : Nat → Option String} {check : ρ → Except Refusal Unit}
    {step : ρ → Batch → Except StoreFault α × Batch} (tell : List α → List Letter)
    (kept : ∀ item batch, (step item batch).2.store = batch.store)
    (counted : answers.length = items.length) (distinct : ((tell answers).map (·.target)).Nodup)
    (accepted : (∀ item ∈ items, check item = .ok ()) → ∃ store : Store, store.holdings = held ∧
      server.commit .never items (fun _ => step) tell =
        { answer := .ok answers, server := { server with store }, mail := tell answers }) :
    AllOrNothing server items ((∀ item ∈ items, check item = .ok ()) ∧ outage.Spares failing items.length) answers
      held (tell answers)
      (match Server.checkAll check items with
      | .error refusal => server.refuse refusal
      | .ok () => server.commit outage items (fun index item => Outage.guard (failing index) (step item)) tell) := by
  cases checked : Server.checkAll check items with
  | error refusal =>
    refine nothing (fun fit => ?_) ⟨refusal.toError, server.store, rfl, rfl⟩
    rw [Server.checkAll_ok.mpr fit.1] at checked
    cases checked
  | ok _ =>
    have valid := Server.checkAll_ok.mp checked
    by_cases spared : outage.Spares failing items.length
    · refine all ⟨valid, spared⟩ counted distinct ?_
      obtain ⟨store, same, shape⟩ := accepted valid
      exact ⟨store, same, (commit_spared server tell spared).trans shape⟩
    · refine nothing (fun fit => spared fit.2) ?_
      obtain ⟨fault, store, same, shape⟩ := commit_struck server tell kept spared
      exact ⟨fault.toError, store, same, shape⟩

end Batches

namespace Server

theorem letters_nodup (origin : Origin) (here : Address) (message : Message) :
    ((letters (.of origin here) message).map (·.target)).Nodup := by
  rw [letters_targets]
  split
  · exact List.nodup_nil
  · exact Dispatch.targets_nodup origin here

variable (server : Server) (outage : Outage) (now : UInt64) (origin : Origin)

theorem write_all_or_nothing (writes : List Write) : AllOrNothing server writes
    ((∀ write ∈ writes, checkWrite origin write = .ok ()) ∧ outage.Spares outage.write writes.length)
    (server.holdings.results now writes) (server.holdings.enterAll now writes)
    (letters (.of origin server.here) (.writes (copies writes (server.holdings.results now writes))))
    (server.write outage now origin writes) := by
  refine checked_commit (fun results => letters (.of origin server.here) (.writes (copies writes results)))
    (fun write batch => batch.write_store write now) (Holdings.results_length now _ writes) (letters_nodup ..)
    fun valid => ?_
  obtain ⟨store, same, shape⟩ := server.write_accepted now valid
  rw [write, checkAll_ok.mpr valid] at shape
  exact ⟨store, same, shape⟩

theorem remove_all_or_nothing (removals : List Removal) : AllOrNothing server removals
    ((∀ removal ∈ removals, checkRemoval removal = .ok ()) ∧ outage.Spares outage.remove removals.length)
    (server.holdings.struck removals) (server.holdings.strikeAll removals)
    (letters (.of origin server.here) (.removals removals))
    (server.remove outage origin removals) := by
  refine checked_commit (fun _ => letters (.of origin server.here) (.removals removals))
    (fun removal batch => batch.remove_store removal) (Holdings.struck_length _ removals) (letters_nodup ..)
    fun valid => ?_
  obtain ⟨store, same, shape⟩ := server.remove_accepted origin fun removal member =>
    checkRemoval_ok.mp (valid removal member)
  rw [remove, checkAll_ok.mpr valid] at shape
  exact ⟨store, same, shape⟩

/-- A batch whose items are all valid is done if nothing fails; then all of it is done, and told of in full. -/
theorem batches_all_or_nothing :
    (∀ writes, AllOrNothing server writes
      ((∀ write ∈ writes, checkWrite origin write = .ok ()) ∧ outage.Spares outage.write writes.length)
      (server.holdings.results now writes) (server.holdings.enterAll now writes)
      (letters (.of origin server.here) (.writes (copies writes (server.holdings.results now writes))))
      (server.write outage now origin writes)) ∧
    ∀ removals, AllOrNothing server removals
      ((∀ removal ∈ removals, checkRemoval removal = .ok ()) ∧ outage.Spares outage.remove removals.length)
      (server.holdings.struck removals) (server.holdings.strikeAll removals)
      (letters (.of origin server.here) (.removals removals))
      (server.remove outage origin removals) :=
  ⟨server.write_all_or_nothing outage now origin, server.remove_all_or_nothing outage origin⟩

private def holding : Server :=
  (({ name := "a", here := ⟨⟨"tcp://a"⟩, ⟨"queue://a"⟩⟩, topology := Ring.trio.topology
      store := .fresh (.ofName "a") } : Server).write .never 0 (.client Ring.trio.topology.first)
    [.lasting "k3" [1] []]).server

/-- A batch that supersedes the value, and writes another key twice. -/
private def superseding : List Write :=
  [.lasting "k3" [2] [{ store := .ofName "a", number := 1 }], .lasting "k4" [3] [], .lasting "k4" [4] []]

/-- If the third write fails, the value is still there. If none does, all three are told to the third machine,
though the second one refuses its mail. -/
theorem superseding_all_or_nothing :
    ((∀ key, (holding.write { Outage.never with write := fun index => if index = 2 then some "full" else none } 0
        (.client Ring.trio.topology.first) superseding).server.store.table.entry key =
          holding.store.table.entry key) ∧
      ((holding.store.table.entry "k3").values.map (·.data)) = [[1]]) ∧
      ((Recorder.post.handAll (holding.write .never 0 (.client Ring.trio.topology.first) superseding).mail
          { refusing := [⟨"queue://b"⟩], postings := [] }).postings.map
        fun posting => (posting.letter.target, posting.letter.message.length, posting.accepted)) =
        [(⟨"queue://b"⟩, 3, false), (⟨"queue://c"⟩, 3, true)] := by
  have failed : (holding.write { Outage.never with write := fun index => if index = 2 then some "full" else none } 0
      (.client Ring.trio.topology.first) superseding).answer = .error (.storage "full") := by decide +kernel
  have told : (holding.write .never 0 (.client Ring.trio.topology.first) superseding).mail.map
      (fun letter => (letter.target, letter.message.length)) = [(⟨"queue://b"⟩, 3), (⟨"queue://c"⟩, 3)] := by
    decide +kernel
  obtain ⟨kept, _, _⟩ := ((holding.batches_all_or_nothing _ 0 _).1 superseding).undone _ failed
  refine ⟨⟨kept, by decide +kernel⟩, ?_⟩
  rw [((holding.batches_all_or_nothing .never 0 _).1 superseding).recorded [⟨"queue://b"⟩] [], List.nil_append,
    List.map_map]
  have posted := congrArg (List.map fun (target, length) =>
    (target, length, !([⟨"queue://b"⟩] : List Endpoint).contains target)) told
  rw [List.map_map] at posted
  exact posted

end Server
end ReplicaRing
