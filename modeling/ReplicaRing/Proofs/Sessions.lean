import ReplicaRing.Proofs.Holdings

/-! A store over time. Batches follow one another, and each is committed or given up. What calls are
answered, and what they do to the store, does not hang on how they are put together in batches: a batch
might as well be committed after each of its calls, and its entries written back in any order. -/

namespace ReplicaRing

/-- What happens next to a store: a call in the batch that is open, at some clock reading, or the end of that
batch, after which another one is opened. -/
inductive Act where
  | call (call : UInt64 × StoreCall)
  | commit
  | drop
  deriving DecidableEq, Repr

namespace Act

def together (calls : List (UInt64 × StoreCall)) (ending : Act) : List Act :=
  calls.map call ++ [ending]

def apart (calls : List (UInt64 × StoreCall)) : List Act :=
  calls.flatMap fun made => [call made, commit]

def write (now : UInt64) (item : Write) : Act :=
  .call (now, .write item)

/-- The batch that is open at the start is not given up. -/
def Secured : List Act → Prop
  | [] => True
  | .call _ :: acts => Secured acts
  | .commit :: _ => True
  | .drop :: _ => False

def time : Act → Option UInt64
  | .call made => some made.1
  | .commit => none
  | .drop => none

/-- The clock never goes back. -/
def Steady (acts : List Act) : Prop :=
  (acts.filterMap time).Pairwise (· ≤ ·)

instance (acts : List Act) : Decidable (Steady acts) :=
  inferInstanceAs (Decidable ((acts.filterMap time).Pairwise (· ≤ ·)))

theorem Steady.upTo {earlier later : List Act} {now : UInt64} {asked : StoreCall}
    (steady : Steady (earlier ++ .call (now, asked) :: later)) :
    Steady earlier ∧ ∀ moment ∈ earlier.filterMap time, moment ≤ now := by
  rw [Steady, List.filterMap_append] at steady
  obtain ⟨before, _, across⟩ := List.pairwise_append.mp steady
  exact ⟨before, fun moment past => across moment past now List.mem_cons_self⟩

theorem Steady.around {earlier later : List Act} {now : UInt64} {asked : StoreCall}
    (steady : Steady (earlier ++ .call (now, asked) :: later)) :
    (∀ moment call, .call (moment, call) ∈ earlier → moment ≤ now) ∧
      (∀ moment ∈ later.filterMap time, now ≤ moment) ∧ Steady later := by
  rw [Steady, List.filterMap_append] at steady
  obtain ⟨_, rest, across⟩ := List.pairwise_append.mp steady
  obtain ⟨ahead, onward⟩ := List.pairwise_cons.mp rest
  refine ⟨?_, ahead, onward⟩
  intro moment call made
  exact across moment (List.mem_filterMap.mpr ⟨_, made, rfl⟩) now List.mem_cons_self

end Act

namespace Batch

def act (batch : Batch) : Act → Batch
  | .call call => (batch.call call.2 call.1).2
  | .commit => batch.commit.openBatch
  | .drop => batch.drop.openBatch

def acts : Batch → List Act → Batch :=
  List.foldl act

def reply (batch : Batch) : Act → List (Except StoreFault StoreAnswer)
  | .call call => [(batch.call call.2 call.1).1]
  | .commit => []
  | .drop => []

def answers : Batch → List Act → List (Except StoreFault StoreAnswer)
  | _, [] => []
  | batch, act :: acts => batch.reply act ++ answers (batch.act act) acts

/-- The write of an act with the version that it carries or is given. One without parents fails before that. -/
def stamps (batch : Batch) : Act → List (Write × Version)
  | .call (_, .write write) => if write.parents.isSome then [(write, (batch.stamp write).1)] else []
  | _ => []

def stamped : Batch → List Act → List (Write × Version)
  | _, [] => []
  | batch, act :: acts => batch.stamps act ++ stamped (batch.act act) acts

theorem acts_append (batch : Batch) (earlier later : List Act) :
    batch.acts (earlier ++ later) = (batch.acts earlier).acts later :=
  List.foldl_append

theorem answers_append (batch : Batch) (earlier later : List Act) :
    batch.answers (earlier ++ later) = batch.answers earlier ++ (batch.acts earlier).answers later := by
  induction earlier generalizing batch with
  | nil => rfl
  | cons act earlier ih =>
    rw [List.cons_append, answers, answers, ih, List.append_assoc]
    rfl

end Batch

namespace Store

def after (store : Store) (acts : List Act) : Store :=
  (store.openBatch.acts acts).store

def answers (store : Store) (acts : List Act) : List (Except StoreFault StoreAnswer) :=
  store.openBatch.answers acts

end Store

theorem Store.commit_openBatch (store : Store) : store.openBatch.commit = store := by
  have table : store.openBatch.commit.table = store.table := by
    rw [Batch.commit_table]
    rfl
  have rest : store.openBatch.commit = { store with table := store.openBatch.commit.table } := rfl
  rw [rest, table]

/-- Entries under distinct keys may be written back in any order. -/
theorem Table.writeBack_perm {table : Table} {changes others : List (String × Entry)}
    (distinct : changes.Pairwise fun first second => ¬ compare first.1 second.1 = .eq) (perm : others.Perm changes) :
    table.writeBack others = table.writeBack changes := by
  have alsoDistinct := distinct.perm perm.symm fun apart same =>
    apart (Std.LawfulEqCmp.compare_eq_iff_eq.mpr (Std.LawfulEqCmp.compare_eq_iff_eq.mp same).symm)
  apply Std.ExtTreeMap.ext_getElem?
  intro key
  by_cases written : ∃ entry, (key, entry) ∈ changes
  · obtain ⟨entry, member⟩ := written
    rw [writeBack_own distinct member, writeBack_own alsoDistinct (perm.mem_iff.mpr member)]
  · have foreign : ∀ change ∈ changes, change.1 ≠ key := by
      rintro ⟨other, entry⟩ member rfl
      exact written ⟨entry, member⟩
    rw [writeBack_other foreign, writeBack_other fun change member => foreign change (perm.mem_iff.mp member)]

namespace Batch

theorem call_store (batch : Batch) (call : StoreCall) (now : UInt64) : (batch.call call now).2.store = batch.store := by
  cases call with
  | write write => exact batch.write_store write now
  | read read => rfl
  | remove removal => exact batch.remove_store removal

theorem acts_calls_store (batch : Batch) (calls : List (UInt64 × StoreCall)) :
    (batch.acts (calls.map .call)).store = batch.store := by
  induction calls generalizing batch with
  | nil => rfl
  | cons call calls ih => exact (ih _).trans (batch.call_store call.2 call.1)

/-- An entry that is changed in a batch might as well be written back at once. -/
theorem commit_set (batch : Batch) (key : String) (entry : Entry) :
    (batch.set key entry).commit = { batch.commit with table := batch.commit.table.set key entry } := by
  have table : (batch.set key entry).commit.table = batch.commit.table.set key entry := by
    apply Std.ExtTreeMap.ext_getElem?
    intro other
    rw [getElem?_commit, Table.getElem?_set, getElem?_commit, Batch.set, Std.ExtTreeMap.getElem?_insert]
    simp only [Std.LawfulEqCmp.compare_eq_iff_eq]
    by_cases same : key = other
    · simp [same]
    · simp [same]
  have rest : (batch.set key entry).commit =
    { batch.commit with table := (batch.set key entry).commit.table } := rfl
  rw [rest, table]

section Congruence

variable {left right : Batch}

theorem holdings_congr (same : left.commit = right.commit) : left.holdings = right.holdings := by
  rw [← left.holdings_commit, same, right.holdings_commit]

theorem set_congr (same : left.commit = right.commit) (key : String) (entry : Entry) :
    (left.set key entry).commit = (right.set key entry).commit := by
  rw [commit_set, commit_set, same]

theorem stamp_congr (same : left.commit = right.commit) (write : Write) :
    (left.stamp write).1 = (right.stamp write).1 ∧ (left.stamp write).2.commit = (right.stamp write).2.commit := by
  cases assigned : write.assigned with
  | some version =>
    simp only [stamp, assigned, true_and]
    exact same
  | none =>
    have held := holdings_congr same
    have id : left.store.id = right.store.id := congrArg Holdings.id held
    have next : left.next = right.next := congrArg Holdings.next held
    simp only [stamp, assigned, id, next, true_and]
    exact congrArg (fun kept : Store => { kept with next := right.next + 1 }) same

/-- What a batch answers, and what it comes to, hangs only on what it came to before. -/
theorem call_congr (same : left.commit = right.commit) (call : StoreCall) (now : UInt64) :
    (left.call call now).1 = (right.call call now).1 ∧
      (left.call call now).2.commit = (right.call call now).2.commit := by
  have entries {first second : Batch} (equal : first.commit = second.commit) : first.entry = second.entry :=
    congrArg Holdings.entry (holdings_congr equal)
  cases call with
  | write write =>
    cases named : write.parents with
    | none =>
      simp only [Batch.call, Batch.write, named, true_and]
      exact same
    | some parents =>
      obtain ⟨version, stamped⟩ := stamp_congr same write
      simp only [Batch.call, Batch.write, named, version, entries stamped, true_and]
      exact set_congr stamped _ _
  | read read =>
    simp only [Batch.call, Batch.read, entries same, true_and]
    exact same
  | remove removal =>
    cases named : removal.parents with
    | none =>
      simp only [Batch.call, Batch.remove, named, true_and]
      exact same
    | some parents =>
      simp only [Batch.call, Batch.remove, named, entries same, true_and]
      exact set_congr same _ _

end Congruence

theorem calls_apart (batch : Batch) (calls : List (UInt64 × StoreCall)) :
    batch.answers (calls.map .call) = batch.commit.answers (Act.apart calls) ∧
      (batch.acts (calls.map .call)).commit = batch.commit.after (Act.apart calls) := by
  induction calls generalizing batch with
  | nil => exact ⟨rfl, rfl⟩
  | cons call calls ih =>
    obtain ⟨answered, left⟩ := call_congr (Store.commit_openBatch batch.commit).symm call.2 call.1
    obtain ⟨later, final⟩ := ih (batch.act (.call call))
    have reached : (batch.act (.call call)).commit = (batch.commit.openBatch.act (.call call)).commit := left
    rw [reached] at later final
    refine ⟨?_, final⟩
    rw [List.map_cons, answers, later, reply, answered]
    rfl

end Batch

/-- A batch answers and does what its calls would answer and do one at a time, in whatever order its entries
are written back. If it is given up, the answers and the running number are the same, and the table is as
it was. -/
theorem Store.batch_as_single_calls (store : Store) (calls : List (UInt64 × StoreCall)) :
    (store.answers (Act.together calls .commit) = store.answers (Act.apart calls) ∧
        store.after (Act.together calls .commit) = store.after (Act.apart calls)) ∧
      (store.answers (Act.together calls .drop) = store.answers (Act.apart calls) ∧
        store.after (Act.together calls .drop) = { store with next := (store.after (Act.apart calls)).next }) ∧
      ∀ changes, changes.Perm (store.openBatch.acts (calls.map .call)).touched.toList →
        store.table.writeBack changes = (store.after (Act.apart calls)).table := by
  obtain ⟨answered, left⟩ := store.openBatch.calls_apart calls
  rw [store.commit_openBatch] at answered left
  have under : (store.openBatch.acts (calls.map .call)).store = store := store.openBatch.acts_calls_store calls
  have replies (ending : Act) (silent : ∀ batch : Batch, batch.reply ending = []) :
      store.answers (Act.together calls ending) = store.answers (Act.apart calls) := by
    rw [Store.answers, Act.together, Batch.answers_append, answered, Batch.answers, silent, Batch.answers]
    simp
  refine ⟨⟨replies .commit fun _ => rfl, ?_⟩, ⟨replies .drop fun _ => rfl, ?_⟩, ?_⟩
  · rw [Store.after, Act.together, Batch.acts_append]
    exact left
  · rw [← left, Store.after, Act.together, Batch.acts_append]
    exact congrArg (fun kept : Store => { kept with next := (store.openBatch.acts (calls.map .call)).next }) under
  · intro changes perm
    rw [← left, Batch.commit_table, under]
    exact Table.writeBack_perm Std.ExtTreeMap.distinct_keys_toList perm

namespace Batch

section Keeps

variable (property : Entry → Prop) {batch : Batch} {acts : List Act} {key : String}

theorem call_keeps {now : UInt64} {call : StoreCall}
    (written : ∀ write version, call = .write write → (write, version) ∈ batch.stamps (.call (now, call)) →
      write.key = key → property ((batch.entry key).write write (write.parents.getD []) version now).2)
    (removed : ∀ removal, call = .remove removal → removal.key = key →
      property ((batch.entry key).remove (removal.parents.getD [])).2)
    (before : property (batch.entry key)) : property ((batch.call call now).2.entry key) := by
  cases call with
  | read _ => exact before
  | write write =>
    by_cases validated : write.parents.isSome
    · have entered := batch.entry_write write now validated key
      rw [show (batch.call (.write write) now).2 = (batch.write write now).2 from rfl, entered]
      split
      · next own =>
        apply written write _ rfl _ own
        simp [stamps, validated]
      · exact before
    · have failed := congrArg Prod.snd (batch.write_unvalidated now (Option.not_isSome_iff_eq_none.mp validated))
      exact failed.symm ▸ before
  | remove removal =>
    by_cases validated : removal.parents.isSome
    · have entered := batch.entry_remove removal validated key
      rw [show (batch.call (.remove removal) now).2 = (batch.remove removal).2 from rfl, entered]
      split
      · next own => exact removed removal rfl own
      · exact before
    · have failed := congrArg Prod.snd (batch.remove_unvalidated (Option.not_isSome_iff_eq_none.mp validated))
      exact failed.symm ▸ before

/-- What every write and every removal of a key keeps about its entry, a run keeps about what the open batch
sees. Where a batch is given up, it must have held in the store already. -/
theorem acts_keeps
    (written : ∀ now write version entry, .call (now, .write write) ∈ acts → (write, version) ∈ batch.stamped acts →
      write.key = key → property entry → property (entry.write write (write.parents.getD []) version now).2)
    (removed : ∀ now removal entry, .call (now, .remove removal) ∈ acts → removal.key = key → property entry →
      property (entry.remove (removal.parents.getD [])).2)
    (settled : Act.Secured acts ∨ property (batch.store.table.entry key)) (opened : property (batch.entry key)) :
    property ((batch.acts acts).entry key) := by
  induction acts generalizing batch with
  | nil => exact opened
  | cons act acts ih =>
    have later := @ih (batch.act act)
      (fun now write version entry member stamped =>
        written now write version entry (List.mem_cons_of_mem _ member) (List.mem_append_right _ stamped))
      (fun now removal entry member => removed now removal entry (List.mem_cons_of_mem _ member))
    cases act with
    | call call =>
      apply later
      · exact settled.imp_right fun stored => (batch.call_store call.2 call.1).symm ▸ stored
      · apply call_keeps property _ _ opened
        · rintro write version same stamped own
          apply written call.1 write version _ _ (List.mem_append_left _ stamped) own opened
          rw [← same]
          exact List.mem_cons_self
        · rintro removal same own
          apply removed call.1 removal _ _ own opened
          rw [← same]
          exact List.mem_cons_self
    | commit =>
      have kept : property (batch.commit.table.entry key) := batch.entry_commit.symm ▸ opened
      apply later (Or.inr kept)
      rw [act, Store.entry_openBatch]
      exact kept
    | drop =>
      have stored := settled.resolve_left id
      apply later (Or.inr stored)
      rw [act, Store.entry_openBatch]
      exact stored

end Keeps

end Batch

/-- What the writes and removals of a key always keep about its entry holds of what any run leaves in the store,
and of what is seen in the batch that is open. -/
theorem Store.keeps_own (property : Entry → Prop) {store : Store} {key : String} (acts : List Act)
    (written : ∀ write parents version now entry, write.key = key → property entry →
      property (entry.write write parents version now).2)
    (removed : ∀ parents entry, property entry → property (entry.remove parents).2)
    (before : property (store.table.entry key)) :
    property ((store.after acts).table.entry key) ∧ property ((store.openBatch.acts acts).entry key) := by
  have seen (acts : List Act) : property ((store.openBatch.acts acts).entry key) := by
    apply Batch.acts_keeps property
    · exact fun now write version entry _ _ own kept => written write _ version now entry own kept
    · exact fun _ removal entry _ _ kept => removed _ entry kept
    · exact Or.inr before
    · rw [store.entry_openBatch]
      exact before
  -- the store is what is seen once the open batch is given up
  have stored := seen (acts ++ [.drop])
  rw [Batch.acts_append, Batch.acts, List.foldl_cons, List.foldl_nil, Batch.act, Store.entry_openBatch] at stored
  exact ⟨stored, seen acts⟩

/-- The same of what writes and removals keep whatever key they are of. -/
theorem Store.keeps (property : Entry → Prop) {store : Store} {key : String} (acts : List Act)
    (written : ∀ write parents version now entry, property entry →
      property (entry.write write parents version now).2)
    (removed : ∀ parents entry, property entry → property (entry.remove parents).2)
    (before : property (store.table.entry key)) :
    property ((store.after acts).table.entry key) ∧ property ((store.openBatch.acts acts).entry key) :=
  Store.keeps_own property acts (fun write parents version now entry _ => written write parents version now entry)
    removed before

end ReplicaRing
