import Mathlib.Logic.Function.Basic
import ReplicaRing.Proofs.Entries
import ReplicaRing.Store.Outage

/-! What a store holds, seen as one entry for each key and the next number to mint. An open
batch is seen the same way, and committing it changes nothing that can be seen. -/

namespace ReplicaRing

/-- The contents of a store or of an open batch. Keys that are not in the table have a vacant entry. -/
structure Holdings where
  id : StoreId
  next : UInt64
  entry : String → Entry

namespace Holdings

def fresh (id : StoreId) : Holdings where
  id := id
  next := 1
  entry _ := .vacant

def stamp (held : Holdings) (write : Write) : Version :=
  write.assigned.getD { store := held.id, number := held.next }

def result (now : UInt64) (held : Holdings) (write : Write) : Written :=
  ((held.entry write.key).write write (write.parents.getD []) (held.stamp write) now).1

/-- The holdings after a write. A number is used up whatever becomes of the write. -/
def enter (now : UInt64) (held : Holdings) (write : Write) : Holdings where
  id := held.id
  next := if write.assigned.isSome then held.next else held.next + 1
  entry := Function.update held.entry write.key
    ((held.entry write.key).write write (write.parents.getD []) (held.stamp write) now).2

def enterAll (now : UInt64) : Holdings → List Write → Holdings :=
  List.foldl (enter now)

def results (now : UInt64) : Holdings → List Write → List Written
  | _, [] => []
  | held, write :: writes => held.result now write :: results now (held.enter now write) writes

def stamped (now : UInt64) : Holdings → List Write → List (Write × Version)
  | _, [] => []
  | held, write :: writes => (write, held.stamp write) :: stamped now (held.enter now write) writes

def strike (held : Holdings) (removal : Removal) : Holdings where
  id := held.id
  next := held.next
  entry := Function.update held.entry removal.key
    ((held.entry removal.key).remove (removal.parents.getD [])).2

def strikeAll : Holdings → List Removal → Holdings :=
  List.foldl strike

def struck : Holdings → List Removal → List Bool
  | _, [] => []
  | held, removal :: removals =>
    ((held.entry removal.key).remove (removal.parents.getD [])).1 :: struck (held.strike removal) removals

theorem enter_entry (now : UInt64) (held : Holdings) (write : Write) (key : String) :
    (held.enter now write).entry key =
      if write.key = key then
        ((held.entry key).write write (write.parents.getD []) (held.stamp write) now).2
      else held.entry key := by
  by_cases same : write.key = key
  · subst same
    simp [enter]
  · simp [enter, same, Function.update_of_ne (Ne.symm same)]

theorem strike_entry (held : Holdings) (removal : Removal) (key : String) :
    (held.strike removal).entry key =
      if removal.key = key then ((held.entry key).remove (removal.parents.getD [])).2
      else held.entry key := by
  by_cases same : removal.key = key
  · subst same
    simp [strike]
  · simp [strike, same, Function.update_of_ne (Ne.symm same)]

theorem enterAll_cons (now : UInt64) (held : Holdings) (write : Write) (writes : List Write) :
    held.enterAll now (write :: writes) = (held.enter now write).enterAll now writes :=
  rfl

theorem strikeAll_cons (held : Holdings) (removal : Removal) (removals : List Removal) :
    held.strikeAll (removal :: removals) = (held.strike removal).strikeAll removals :=
  rfl

theorem stamped_writes (now : UInt64) (held : Holdings) (writes : List Write) :
    (held.stamped now writes).map (·.1) = writes := by
  induction writes generalizing held with
  | nil => rfl
  | cons write writes ih => simp [stamped, ih]

theorem mem_of_stamped {now : UInt64} {held : Holdings} {writes : List Write} {write : Write}
    {version : Version} (member : (write, version) ∈ held.stamped now writes) : write ∈ writes := by
  rw [← stamped_writes now held writes]
  exact List.mem_map_of_mem (f := (·.1)) member

theorem exists_stamped (now : UInt64) (held : Holdings) {writes : List Write} {write : Write}
    (member : write ∈ writes) : ∃ version, (write, version) ∈ held.stamped now writes := by
  rw [← stamped_writes now held writes] at member
  obtain ⟨⟨_, version⟩, stamped, rfl⟩ := List.mem_map.mp member
  exact ⟨version, stamped⟩

/-- A write that was given a version was stored under it, or its version was retired already. -/
theorem stamped_of_result {now : UInt64} {held : Holdings} {writes : List Write} {write : Write}
    {result : Written} {version : Version} (paired : (write, result) ∈ writes.zip (held.results now writes))
    (accepted : result.version = some version) : (write, version) ∈ held.stamped now writes := by
  induction writes generalizing held with
  | nil => cases paired
  | cons first writes ih =>
    simp only [results, List.zip_cons_cons, List.mem_cons] at paired
    rcases paired with here | later
    · cases here
      rw [Entry.write_version_eq accepted]
      exact List.mem_cons_self
    · exact List.mem_cons_of_mem _ (ih later)

section Runs

variable {now : UInt64} {held : Holdings} {key : String}

/-- What every write of a key keeps about its entry, a batch of writes keeps. -/
theorem enterAll_keeps (property : Entry → Prop) {writes : List Write}
    (kept : ∀ write version entry, (write, version) ∈ held.stamped now writes → write.key = key →
      property entry → property (entry.write write (write.parents.getD []) version now).2)
    (before : property (held.entry key)) : property ((held.enterAll now writes).entry key) := by
  induction writes generalizing held with
  | nil => exact before
  | cons first writes ih =>
    apply ih
    · intro write version entry member
      exact kept write version entry (List.mem_cons_of_mem _ member)
    · rw [enter_entry]
      split
      · next same => exact kept first _ _ List.mem_cons_self same before
      · exact before

theorem enterAll_makes (property : Entry → Prop) {writes : List Write} {write : Write} {version : Version}
    (member : (write, version) ∈ held.stamped now writes)
    (made : ∀ entry : Entry, property (entry.write write (write.parents.getD []) version now).2)
    (kept : ∀ other version entry, (other, version) ∈ held.stamped now writes → other.key = write.key →
      property entry → property (entry.write other (other.parents.getD []) version now).2) :
    property ((held.enterAll now writes).entry write.key) := by
  induction writes generalizing held with
  | nil => cases member
  | cons first writes ih =>
    have keptLater : ∀ other version entry, (other, version) ∈ (held.enter now first).stamped now writes →
        other.key = write.key → property entry →
        property (entry.write other (other.parents.getD []) version now).2 :=
      fun other version entry later => kept other version entry (List.mem_cons_of_mem _ later)
    rcases List.mem_cons.mp member with here | later
    · cases here
      have first : property ((held.enter now write).entry write.key) := by
        rw [enter_entry, if_pos rfl]
        exact made _
      rw [enterAll_cons]
      exact enterAll_keeps property keptLater first
    · exact ih later keptLater

theorem strikeAll_keeps (property : Entry → Prop) {removals : List Removal}
    (kept : ∀ removal entry, removal ∈ removals → removal.key = key →
      property entry → property (entry.remove (removal.parents.getD [])).2)
    (before : property (held.entry key)) : property ((held.strikeAll removals).entry key) := by
  induction removals generalizing held with
  | nil => exact before
  | cons first removals ih =>
    apply ih
    · intro removal entry member
      exact kept removal entry (List.mem_cons_of_mem _ member)
    · rw [strike_entry]
      split
      · next same => exact kept first _ List.mem_cons_self same before
      · exact before

theorem strikeAll_makes (property : Entry → Prop) {removals : List Removal} {removal : Removal}
    (member : removal ∈ removals)
    (made : ∀ entry : Entry, property (entry.remove (removal.parents.getD [])).2)
    (kept : ∀ other entry, other ∈ removals → other.key = removal.key →
      property entry → property (entry.remove (other.parents.getD [])).2) :
    property ((held.strikeAll removals).entry removal.key) := by
  induction removals generalizing held with
  | nil => cases member
  | cons first removals ih =>
    have keptLater : ∀ other entry, other ∈ removals → other.key = removal.key → property entry →
        property (entry.remove (other.parents.getD [])).2 :=
      fun other entry later => kept other entry (List.mem_cons_of_mem _ later)
    rcases List.mem_cons.mp member with rfl | later
    · have first : property ((held.strike removal).entry removal.key) := by
        rw [strike_entry, if_pos rfl]
        exact made _
      rw [strikeAll_cons]
      exact strikeAll_keeps property keptLater first
    · exact ih later keptLater

@[simp] theorem enterAll_id {writes : List Write} : (held.enterAll now writes).id = held.id := by
  induction writes generalizing held with
  | nil => rfl
  | cons write writes ih => exact ih

@[simp] theorem strikeAll_id {removals : List Removal} : (held.strikeAll removals).id = held.id := by
  induction removals generalizing held with
  | nil => rfl
  | cons removal removals ih => exact ih

@[simp] theorem strikeAll_next {removals : List Removal} : (held.strikeAll removals).next = held.next := by
  induction removals generalizing held with
  | nil => rfl
  | cons removal removals ih => exact ih

end Runs
end Holdings

theorem Table.getElem?_set (table : Table) (key other : String) (entry : Entry) :
    (table.set key entry)[other]? =
      if key = other then if entry.isVacant then none else some entry else table[other]? := by
  unfold Table.set
  split
  · rw [Std.ExtTreeMap.getElem?_erase]
    simp only [Std.LawfulEqCmp.compare_eq_iff_eq]
  · rw [Std.ExtTreeMap.getElem?_insert]
    simp only [Std.LawfulEqCmp.compare_eq_iff_eq]

/-- The table once some entries are written back, one after the other. -/
def Table.writeBack : Table → List (String × Entry) → Table :=
  List.foldl fun table change => table.set change.1 change.2

section WriteBack

variable {changes : List (String × Entry)} {table : Table} {key : String}

theorem Table.writeBack_other (foreign : ∀ change ∈ changes, change.1 ≠ key) :
    (table.writeBack changes)[key]? = table[key]? := by
  induction changes generalizing table with
  | nil => rfl
  | cons change changes ih =>
    obtain ⟨other, rest⟩ := List.forall_mem_cons.mp foreign
    exact (ih rest).trans ((Table.getElem?_set ..).trans (if_neg other))

/-- Each key is left with what is written back under it. -/
theorem Table.writeBack_own {entry : Entry}
    (distinct : changes.Pairwise fun first second => ¬ compare first.1 second.1 = .eq)
    (member : (key, entry) ∈ changes) :
    (table.writeBack changes)[key]? = if entry.isVacant then none else some entry := by
  induction changes generalizing table with
  | nil => cases member
  | cons change changes ih =>
    obtain ⟨apart, rest⟩ := List.pairwise_cons.mp distinct
    rcases List.mem_cons.mp member with rfl | later
    · have foreign : ∀ other ∈ changes, other.1 ≠ key := by
        intro other later same
        exact apart other later (Std.LawfulEqCmp.compare_eq_iff_eq.mpr same.symm)
      exact (writeBack_other foreign).trans ((Table.getElem?_set ..).trans (if_pos rfl))
    · exact ih rest later

end WriteBack

def Store.holdings (store : Store) : Holdings where
  id := store.id
  next := store.next
  entry := store.table.entry

def Batch.holdings (batch : Batch) : Holdings where
  id := batch.store.id
  next := batch.next
  entry := batch.entry

theorem Store.holdings_fresh (id : StoreId) : (Store.fresh id).holdings = .fresh id := by
  simp [Store.holdings, Store.fresh, Holdings.fresh, Table.entry, funext_iff]

theorem Store.holdings_openBatch (store : Store) : store.openBatch.holdings = store.holdings := by
  simp [Batch.holdings, Store.holdings, Store.openBatch, Batch.entry, funext_iff]

theorem Batch.entry_set (batch : Batch) (key other : String) (entry : Entry) :
    (batch.set key entry).entry other = if key = other then entry else batch.entry other := by
  simp only [Batch.set, Batch.entry, Std.ExtTreeMap.getElem?_insert, Std.LawfulEqCmp.compare_eq_iff_eq]
  split <;> rfl

theorem Batch.commit_table (batch : Batch) :
    batch.commit.table = batch.store.table.writeBack batch.touched.toList :=
  Std.ExtTreeMap.foldl_eq_foldl_toList

theorem Batch.getElem?_commit (batch : Batch) (key : String) :
    batch.commit.table[key]? =
      match batch.touched[key]? with
      | none => batch.store.table[key]?
      | some entry => if entry.isVacant then none else some entry := by
  rw [batch.commit_table]
  cases found : batch.touched[key]? with
  | none =>
    apply Table.writeBack_other
    intro change member same
    have touched := Std.ExtTreeMap.mem_toList_iff_getElem?_eq_some.mp member
    rw [same, found] at touched
    cases touched
  | some entry =>
    apply Table.writeBack_own Std.ExtTreeMap.distinct_keys_toList
    exact Std.ExtTreeMap.mem_toList_iff_getElem?_eq_some.mpr found

theorem Batch.holdings_commit (batch : Batch) : batch.commit.holdings = batch.holdings := by
  have entries (key : String) : batch.commit.table.entry key = batch.entry key := by
    rw [Table.entry, batch.getElem?_commit, Batch.entry]
    cases batch.touched[key]? with
    | none => rfl
    | some entry =>
      simp only
      split
      · next empty => exact (Entry.eq_vacant empty).symm
      · rfl
  simp only [Store.holdings, Batch.holdings, Holdings.mk.injEq]
  exact ⟨rfl, rfl, funext entries⟩

theorem Batch.write_store (batch : Batch) (write : Write) (now : UInt64) :
    (batch.write write now).2.store = batch.store := by
  unfold Batch.write Batch.stamp
  cases write.parents with
  | none => rfl
  | some _ => cases write.assigned <;> rfl

theorem Batch.remove_store (batch : Batch) (removal : Removal) : (batch.remove removal).2.store = batch.store := by
  unfold Batch.remove
  split <;> rfl

theorem Batch.write_validated (batch : Batch) (write : Write) (now : UInt64) (validated : write.parents.isSome) :
    (batch.write write now).1 = .ok (batch.holdings.result now write) ∧
      (batch.write write now).2.holdings = batch.holdings.enter now write := by
  obtain ⟨parents, named⟩ := Option.isSome_iff_exists.mp validated
  have entries (stamped : Batch) (same : stamped.entry = batch.entry) (entry : Entry) :
      (stamped.set write.key entry).entry = Function.update batch.entry write.key entry := by
    funext key
    rw [Batch.entry_set, Function.update_apply, same]
    simp only [eq_comm]
  simp only [Batch.write, named, Batch.stamp, Holdings.result, Holdings.enter, Holdings.stamp, Batch.holdings,
    Option.getD_some]
  cases write.assigned with
  | none => exact ⟨rfl, by rw [entries { batch with next := batch.next + 1 } rfl]; rfl⟩
  | some version => exact ⟨rfl, by rw [entries batch rfl]; rfl⟩

theorem Batch.remove_validated (batch : Batch) (removal : Removal) (validated : removal.parents.isSome) :
    (batch.remove removal).1 =
        .ok ((batch.holdings.entry removal.key).remove (removal.parents.getD [])).1 ∧
      (batch.remove removal).2.holdings = batch.holdings.strike removal := by
  obtain ⟨parents, named⟩ := Option.isSome_iff_exists.mp validated
  have entries (entry : Entry) : (batch.set removal.key entry).entry =
      Function.update batch.entry removal.key entry := by
    funext key
    rw [Batch.entry_set, Function.update_apply]
    simp only [eq_comm]
  simp only [Batch.remove, named, Holdings.strike, Batch.holdings, Option.getD_some, true_and]
  rw [entries]
  rfl

theorem Store.entry_openBatch (store : Store) : store.openBatch.entry = store.table.entry :=
  congrArg Holdings.entry store.holdings_openBatch

theorem Batch.entry_commit (batch : Batch) : batch.commit.table.entry = batch.entry :=
  congrArg Holdings.entry batch.holdings_commit

theorem Batch.holdings_stamp (batch : Batch) (write : Write) : batch.holdings.stamp write = (batch.stamp write).1 := by
  unfold Holdings.stamp Batch.stamp
  cases write.assigned <;> rfl

theorem Batch.write_answer (batch : Batch) (write : Write) (now : UInt64) (validated : write.parents.isSome) :
    (batch.write write now).1 =
      .ok ((batch.entry write.key).write write (write.parents.getD []) (batch.stamp write).1 now).1 := by
  rw [(batch.write_validated write now validated).1, Holdings.result, Batch.holdings_stamp]
  rfl

theorem Batch.entry_write (batch : Batch) (write : Write) (now : UInt64) (validated : write.parents.isSome) (key : String) :
    (batch.write write now).2.entry key =
      if write.key = key then
        ((batch.entry key).write write (write.parents.getD []) (batch.stamp write).1 now).2
      else batch.entry key := by
  have entered := congrArg (·.entry key) (batch.write_validated write now validated).2
  rw [← Batch.holdings_stamp]
  exact entered.trans (Holdings.enter_entry now batch.holdings write key)

theorem Batch.next_write (batch : Batch) (write : Write) (now : UInt64) (validated : write.parents.isSome) :
    (batch.write write now).2.next = if write.assigned.isSome then batch.next else batch.next + 1 :=
  congrArg Holdings.next (batch.write_validated write now validated).2

theorem Batch.write_unvalidated (batch : Batch) {write : Write} (now : UInt64) (missing : write.parents = none) :
    batch.write write now = (.error (.unvalidated write.key), batch) := by
  rw [Batch.write, missing]

theorem Batch.entry_remove (batch : Batch) (removal : Removal) (validated : removal.parents.isSome) (key : String) :
    (batch.remove removal).2.entry key =
      if removal.key = key then ((batch.entry key).remove (removal.parents.getD [])).2 else batch.entry key :=
  (congrArg (·.entry key) (batch.remove_validated removal validated).2).trans
    (Holdings.strike_entry batch.holdings removal key)

theorem Batch.remove_unvalidated (batch : Batch) {removal : Removal} (missing : removal.parents = none) :
    batch.remove removal = (.error (.unvalidated removal.key), batch) := by
  rw [Batch.remove, missing]

end ReplicaRing
