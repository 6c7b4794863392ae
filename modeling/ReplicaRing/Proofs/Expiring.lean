import Mathlib.Data.List.Perm.Subperm
import ReplicaRing.Proofs.Likeness
import ReplicaRing.Proofs.Pairing

/-! When values go that have expired. A store keeps them until a write of their key clears them out, though nobody
sees them any more. It might as well clear out all keys before every call: writes and reads are answered the same,
whatever has been replayed, removed or given up before. Only a removal may say that it found something where
nothing was to be seen, and a key may be counted that has nothing to show. -/

namespace ReplicaRing

namespace Entry

/-- The entry without what has expired. Nothing is retired by that. -/
def purged (entry : Entry) (now : UInt64) : Entry :=
  { entry with values := entry.unexpired now }

/-- The right entry is the left one without some of what has expired. -/
structure Sheds (now : UInt64) (left right : Entry) : Prop where
  fewer : right.values.Sublist left.values
  unexpired : left.unexpired now = right.unexpired now
  retired : left.retired = right.retired

theorem unexpired_remove (entry : Entry) (parents : List Version) (now : UInt64) :
    (entry.remove parents).2.unexpired now =
      (entry.unexpired now).filter fun value => !parents.contains value.version := by
  rw [unexpired, unexpired, remove, List.filter_filter, List.filter_filter]
  exact List.filter_congr fun _ _ => Bool.and_comm _ _

theorem remove_finds (entry : Entry) (parents : List Version) :
    (entry.remove parents).1 = entry.values.any fun value => parents.contains value.version := by
  rw [Bool.eq_iff_iff, remove, decide_eq_true_iff, List.length_filter_lt_length_iff_exists, List.any_eq_true]
  simp only [Bool.not_eq_true', Bool.not_eq_false]

namespace Sheds

variable {now : UInt64} {left right : Entry}

theorem refl (entry : Entry) : entry.Sheds now entry :=
  ⟨.refl _, rfl, rfl⟩

theorem later {later : UInt64} (sheds : left.Sheds now right) (order : now ≤ later) : left.Sheds later right where
  fewer := sheds.fewer
  unexpired := by rw [← filter_unexpired order, ← filter_unexpired order, sheds.unexpired]
  retired := sheds.retired

theorem purged (sheds : left.Sheds now right) : left.Sheds now (right.purged now) where
  fewer := List.filter_sublist.trans sheds.fewer
  unexpired := sheds.unexpired.trans (filter_unexpired (UInt64.le_refl now) right).symm
  retired := sheds.retired

theorem write (sheds : left.Sheds now right) (write : Write) (parents : List Version) (version : Version) :
    (left.write write parents version now).1 = (right.write write parents version now).1 ∧
      (left.write write parents version now).2.Sheds now (right.write write parents version now).2 := by
  have either : left.Retired version ↔ right.Retired version := by
    rw [Retired, Retired, sheds.retired]
  rcases write_cases left write parents version now with
    ⟨retired, same⟩ | ⟨fresh, conflict, optimistic, same⟩ | ⟨fresh, firm, same⟩
  · rw [same, write_of_retired (either.mp retired)]
    exact ⟨rfl, sheds⟩
  · rw [same, write_of_refused (either.not.mp fresh) (sheds.unexpired ▸ conflict) optimistic]
    refine ⟨rfl, ?_⟩
    rw [sheds.unexpired, sheds.retired]
    exact .refl _
  · rw [same, write_of_granted (either.not.mp fresh) (sheds.unexpired ▸ firm)]
    refine ⟨by rw [sheds.unexpired], ?_⟩
    rw [granted, granted, sheds.unexpired, sheds.retired]
    exact .refl _

theorem remove (sheds : left.Sheds now right) (parents : List Version) :
    (left.remove parents).2.Sheds now (right.remove parents).2 where
  fewer := sheds.fewer.filter _
  unexpired := by rw [unexpired_remove, unexpired_remove, sheds.unexpired]
  retired := by rw [Entry.remove, Entry.remove, sheds.retired]

end Sheds
end Entry

def Store.purged (store : Store) (now : UInt64) : Store :=
  let batch : Batch := { store, touched := store.table.map fun _ entry => entry.purged now, next := store.next }
  batch.commit

theorem Store.entry_purged (store : Store) (now : UInt64) (key : String) :
    (store.purged now).table.entry key = (store.table.entry key).purged now := by
  rw [purged, Batch.entry_commit, Batch.entry, Std.ExtTreeMap.getElem?_map, Table.entry]
  cases store.table[key]? <;> rfl

/-- An answer without what a removal says it has found. -/
def StoreAnswer.unflagged : StoreAnswer → StoreAnswer
  | written result => .written result
  | values found => .values found
  | removed _ => .removed false

namespace Batch

def purged (batch : Batch) (now : UInt64) : Batch where
  store := batch.store.purged now
  touched := batch.touched.map fun _ entry => entry.purged now
  next := batch.next

/-- What has expired before a call is cleared out for it. -/
def cleared (batch : Batch) (act : Act) : Batch :=
  act.time.elim batch batch.purged

/-- What becomes of a batch if everything is cleared out before each call. -/
def eagerActs : Batch → List Act → Batch :=
  List.foldl fun batch act => (batch.cleared act).act act

def eagerAnswers : Batch → List Act → List (Except StoreFault StoreAnswer)
  | _, [] => []
  | batch, act :: acts => (batch.cleared act).reply act ++ eagerAnswers ((batch.cleared act).act act) acts

/-- The answers of a run, but for what removals say they have found. -/
def heard (batch : Batch) (acts : List Act) : List (Except StoreFault StoreAnswer) :=
  (batch.answers acts).map (·.map StoreAnswer.unflagged)

def eagerHeard (batch : Batch) (acts : List Act) : List (Except StoreFault StoreAnswer) :=
  (batch.eagerAnswers acts).map (·.map StoreAnswer.unflagged)

theorem entry_purged (batch : Batch) (now : UInt64) (key : String) :
    (batch.purged now).entry key = (batch.entry key).purged now := by
  rw [entry, entry, purged, Std.ExtTreeMap.getElem?_map, Store.entry_purged]
  cases batch.touched[key]? <;> rfl

theorem reply_remove (batch : Batch) (now : UInt64) {removal : Removal} {parents : List Version}
    (named : removal.parents = some parents) : batch.reply (.call (now, .remove removal)) =
      [.ok (.removed ((batch.entry removal.key).values.any fun value => parents.contains value.version))] := by
  have answered := (batch.remove_validated removal (named ▸ rfl)).1
  rw [named, Option.getD_some, Entry.remove_finds] at answered
  simp only [reply, call, answered]
  rfl

abbrev Sheds (now : UInt64) : Batch → Batch → Prop :=
  Paired (Entry.Sheds now)

namespace Sheds

variable {now : UInt64} {left right : Batch}

theorem later {later : UInt64} (sheds : left.Sheds now right) (order : now ≤ later) : left.Sheds later right :=
  sheds.mono fun _ _ entry => entry.later order

theorem purged (sheds : left.Sheds now right) : left.Sheds now (right.purged now) where
  id := sheds.id
  next := sheds.next
  stored key := (right.store.entry_purged now key).symm ▸ (sheds.stored key).purged
  opened key := (right.entry_purged now key).symm ▸ (sheds.opened key).purged

theorem call (sheds : left.Sheds now right) (call : StoreCall) :
    (left.call call now).1.map StoreAnswer.unflagged = (right.call call now).1.map StoreAnswer.unflagged ∧
      (left.call call now).2.Sheds now (right.call call now).2 := by
  cases call with
  | write write =>
    obtain ⟨answered, after⟩ := sheds.write write now fun _ _ parents version entry => entry.write write parents version
    refine ⟨?_, after⟩
    simp only [Batch.call, answered]
  | read read =>
    refine ⟨?_, sheds⟩
    simp only [Batch.call, Batch.read, Entry.read, (sheds.opened read.key).unexpired]
  | remove removal =>
    obtain ⟨answered, after⟩ := sheds.remove removal fun _ _ parents entry => entry.remove parents
    have unflagged (flag : Except StoreFault Bool) : (flag.map StoreAnswer.removed).map StoreAnswer.unflagged =
        (flag.map fun _ => ()).map fun _ => StoreAnswer.removed false := by
      cases flag <;> rfl
    refine ⟨?_, after⟩
    simp only [Batch.call, unflagged, answered]

theorem heard {acts : List Act} (sheds : left.Sheds now right) (ahead : ∀ time ∈ acts.filterMap Act.time, now ≤ time)
    (steady : Act.Steady acts) : left.heard acts = right.heard acts := by
  induction acts generalizing now left right with
  | nil => rfl
  | cons act acts ih =>
    cases act with
    | call call =>
      obtain ⟨upcoming, steady⟩ := List.pairwise_cons.mp steady
      obtain ⟨answered, after⟩ := (sheds.later (ahead call.1 List.mem_cons_self)).call call.2
      exact congrArg₂ List.cons answered (ih after upcoming steady)
    | commit => exact ih sheds.commit ahead steady
    | drop => exact ih sheds.drop ahead steady

/-- A batch that is cleared out before every call answers like one that is not, and has lost no more than what has
expired. -/
theorem eager {acts : List Act} (sheds : left.Sheds now right) (ahead : ∀ time ∈ acts.filterMap Act.time, now ≤ time)
    (steady : Act.Steady acts) : left.heard acts = right.eagerHeard acts ∧
      ∀ moment, now ≤ moment → (∀ time ∈ acts.filterMap Act.time, time ≤ moment) →
        (left.acts acts).Sheds moment (right.eagerActs acts) := by
  induction acts generalizing now left right with
  | nil => exact ⟨rfl, fun _ order _ => sheds.later order⟩
  | cons act acts ih =>
    cases act with
    | call call =>
      obtain ⟨upcoming, steady⟩ := List.pairwise_cons.mp steady
      obtain ⟨answered, after⟩ := (sheds.later (ahead call.1 List.mem_cons_self)).purged.call call.2
      obtain ⟨rest, final⟩ := ih after upcoming steady
      refine ⟨congrArg₂ List.cons answered rest, fun moment _ past => ?_⟩
      obtain ⟨order, past⟩ := List.forall_mem_cons.mp past
      exact final moment order past
    | commit => exact ih sheds.commit ahead steady
    | drop => exact ih sheds.drop ahead steady

end Sheds
end Batch

namespace Store

/-- The store as the batches that have ended left it, when everything is cleared out before each call. -/
def eagerAfter (store : Store) (acts : List Act) : Store :=
  (store.openBatch.eagerActs acts).store

theorem size_le {left right : Store}
    (covered : ∀ key, (left.table.entry key).values ≠ [] → (right.table.entry key).values ≠ []) :
    left.size ≤ right.size := by
  have counted (store : Store) (key : String) :
      key ∈ (store.table.filter fun _ entry => !entry.values.isEmpty).keys ↔ (store.table.entry key).values ≠ [] := by
    rw [Std.ExtTreeMap.mem_keys, Std.ExtTreeMap.mem_iff_isSome_getElem?, Std.ExtTreeMap.getElem?_filter', Table.entry]
    cases store.table[key]? with
    | none => simp [Entry.vacant]
    | some entry => simp [Option.isSome_filter]
  rw [size, size, ← Std.ExtTreeMap.length_keys, ← Std.ExtTreeMap.length_keys]
  apply (List.subperm_of_subset Std.ExtTreeMap.nodup_keys _).length_le
  intro key member
  exact (counted right key).mpr (covered key ((counted left key).mp member))

/-- Writes and reads are answered as if everything that has expired were cleared out before each call, in batches
that are committed as in batches that are given up, if the clock never goes back. A removal looks among what has
expired, too. At the end, no fewer keys are counted, and no more if each has something that is not expired. -/
theorem expiry_unseen (store : Store) {acts : List Act} (steady : Act.Steady acts) :
    store.openBatch.heard acts = store.openBatch.eagerHeard acts ∧
      (∀ earlier now removal parents later, acts = earlier ++ .call (now, .remove removal) :: later →
        removal.parents = some parents →
        let values := ((store.openBatch.acts earlier).entry removal.key).values
        (store.openBatch.acts earlier).reply (.call (now, .remove removal)) =
            [.ok (.removed (values.any fun value => parents.contains value.version))] ∧
          ((store.openBatch.eagerActs earlier).purged now).reply (.call (now, .remove removal)) =
            [.ok (.removed (values.any fun value => !value.isExpired now && parents.contains value.version))]) ∧
      ∀ now, (∀ time ∈ acts.filterMap Act.time, time ≤ now) →
        (∀ key, (((store.eagerAfter acts).purged now).table.entry key).values =
            ((store.after acts).table.entry key).unexpired now) ∧
          ((store.eagerAfter acts).purged now).size ≤ (store.after acts).size ∧
          ((∀ key, ((store.after acts).table.entry key).values ≠ [] →
              ((store.after acts).table.entry key).unexpired now ≠ []) →
            ((store.eagerAfter acts).purged now).size = (store.after acts).size) := by
  have start : store.openBatch.Sheds 0 store.openBatch := .refl Entry.Sheds.refl _
  refine ⟨(start.eager (fun _ _ => UInt64.zero_le) steady).1, ?_, ?_⟩
  · rintro earlier now removal parents later rfl named
    obtain ⟨steady, past⟩ := steady.upTo
    have sheds := (start.eager (fun _ _ => UInt64.zero_le) steady).2 now UInt64.zero_le past
    have unexpired := (sheds.opened removal.key).unexpired
    refine ⟨Batch.reply_remove _ now named, ?_⟩
    rw [Batch.reply_remove _ now named, Batch.entry_purged, Entry.purged, ← unexpired, Entry.unexpired, List.any_filter]
  · intro now past
    have sheds := (start.eager (fun _ _ => UInt64.zero_le) steady).2 now UInt64.zero_le past
    have left (key : String) : (((store.eagerAfter acts).purged now).table.entry key).values =
        ((store.after acts).table.entry key).unexpired now := by
      rw [entry_purged]
      exact (sheds.stored key).unexpired.symm
    have fewer : ((store.eagerAfter acts).purged now).size ≤ (store.after acts).size := by
      apply size_le
      intro key some none
      rw [left, Entry.unexpired, none] at some
      exact some rfl
    refine ⟨left, fewer, fun shown => Nat.le_antisymm fewer (size_le ?_)⟩
    intro key some
    rw [left]
    exact shown key some

private def lapsing : Write where
  key := "k"
  data := [1]
  parents := some []
  expiresAt := some 5
  optimistic := false
  assigned := some ⟨⟨1⟩, 1⟩

private def sweep : Removal where
  key := "k"
  parents := some [⟨⟨1⟩, 1⟩]

/-- The copy expires, is cleared out in a batch that is given up, comes again and is removed. Meanwhile another key
is left with nothing but what has expired. -/
private def lapses : List Act :=
  [.write 1 lapsing, .write 1 { lapsing with key := "l" }, .commit,
    .write 6 { lapsing with optimistic := true, assigned := none }, .drop, .write 7 lapsing, .commit,
    .call (8, .read { key := "k", version := none }), .call (9, .remove sweep), .commit]

theorem lapses_unseen :
    (fresh ⟨0⟩).openBatch.heard lapses = (fresh ⟨0⟩).openBatch.eagerHeard lapses ∧
      ((fresh ⟨0⟩).openBatch.acts (lapses.take 8)).reply (.call (9, .remove sweep)) = [.ok (.removed true)] ∧
      (((fresh ⟨0⟩).openBatch.eagerActs (lapses.take 8)).purged 9).reply (.call (9, .remove sweep)) =
        [.ok (.removed false)] ∧
      (((fresh ⟨0⟩).eagerAfter lapses).purged 9).size ≤ ((fresh ⟨0⟩).after lapses).size ∧
      ((fresh ⟨0⟩).after lapses).size = 1 ∧ (((fresh ⟨0⟩).eagerAfter lapses).purged 9).size = 0 := by
  have steady : Act.Steady lapses := by decide +kernel
  have times : lapses.filterMap Act.time = [1, 1, 6, 7, 8, 9] := rfl
  obtain ⟨heard, flags, left⟩ := expiry_unseen (fresh ⟨0⟩) steady
  obtain ⟨lazy, eager⟩ := flags (lapses.take 8) 9 sweep _ [.commit] rfl rfl
  obtain ⟨_, counted, _⟩ := left 9 (by simp [times])
  refine ⟨heard, lazy.trans ?_, eager.trans ?_, counted, by decide +kernel, by decide +kernel⟩
  · decide +kernel
  · decide +kernel

end Store
end ReplicaRing
