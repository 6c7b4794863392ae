import ReplicaRing.Proofs.Sessions

/-! Two batches side by side. If their entries are related key by key, and writes and removals of the same key keep
entries related and are answered alike, then the batches stay related and answer alike, call by call and from batch
to batch. -/

namespace ReplicaRing.Batch

/-- Batches of stores that mint the same versions. For each key, the entries in the stores are related, and so are
those that the batches see. -/
structure Paired (related : Entry → Entry → Prop) (left right : Batch) : Prop where
  id : left.store.id = right.store.id
  next : left.next = right.next
  stored : ∀ key, related (left.store.table.entry key) (right.store.table.entry key)
  opened : ∀ key, related (left.entry key) (right.entry key)

namespace Paired

variable {related : Entry → Entry → Prop} {left right : Batch}

theorem refl (same : ∀ entry, related entry entry) (batch : Batch) : batch.Paired related batch where
  id := rfl
  next := rfl
  stored _ := same _
  opened _ := same _

theorem mono {weaker : Entry → Entry → Prop} (paired : left.Paired related right)
    (implied : ∀ first second, related first second → weaker first second) : left.Paired weaker right where
  id := paired.id
  next := paired.next
  stored key := implied _ _ (paired.stored key)
  opened key := implied _ _ (paired.opened key)

theorem stamp (paired : left.Paired related right) (write : Write) : (left.stamp write).1 = (right.stamp write).1 := by
  unfold Batch.stamp
  cases write.assigned with
  | none => simp only [paired.id, paired.next]
  | some version => rfl

theorem write (paired : left.Paired related right) (write : Write) (now : UInt64)
    (kept : ∀ first second parents version, related first second →
      (first.write write parents version now).1 = (second.write write parents version now).1 ∧
        related (first.write write parents version now).2 (second.write write parents version now).2) :
    (left.write write now).1 = (right.write write now).1 ∧
      (left.write write now).2.Paired related (right.write write now).2 := by
  by_cases validated : write.parents.isSome
  · have here := kept _ _ (write.parents.getD []) (right.stamp write).1 (paired.opened write.key)
    refine ⟨?_, ?_, ?_, ?_, ?_⟩
    · rw [write_answer _ _ _ validated, write_answer _ _ _ validated, paired.stamp, here.1]
    · rw [write_store, write_store, paired.id]
    · rw [next_write _ _ _ validated, next_write _ _ _ validated, paired.next]
    · intro key
      rw [write_store, write_store]
      exact paired.stored key
    · intro key
      rw [entry_write _ _ _ validated, entry_write _ _ _ validated, paired.stamp]
      split
      · next own => exact own ▸ here.2
      · exact paired.opened key
  · have missing := Option.not_isSome_iff_eq_none.mp validated
    rw [write_unvalidated _ _ missing, write_unvalidated _ _ missing]
    exact ⟨rfl, paired⟩

/-- Whether a removal finds anything is left open. -/
theorem remove (paired : left.Paired related right) (removal : Removal)
    (kept : ∀ first second parents, related first second → related (first.remove parents).2 (second.remove parents).2) :
    (left.remove removal).1.map (fun _ => ()) = (right.remove removal).1.map (fun _ => ()) ∧
      (left.remove removal).2.Paired related (right.remove removal).2 := by
  by_cases validated : removal.parents.isSome
  · refine ⟨?_, ?_, ?_, ?_, ?_⟩
    · rw [(remove_validated _ _ validated).1, (remove_validated _ _ validated).1]
      rfl
    · rw [remove_store, remove_store, paired.id]
    · have next (batch : Batch) : (batch.remove removal).2.next = batch.next :=
        congrArg Holdings.next (batch.remove_validated removal validated).2
      rw [next, next, paired.next]
    · intro key
      rw [remove_store, remove_store]
      exact paired.stored key
    · intro key
      rw [entry_remove _ _ validated, entry_remove _ _ validated]
      split
      · exact kept _ _ _ (paired.opened key)
      · exact paired.opened key
  · have missing := Option.not_isSome_iff_eq_none.mp validated
    rw [remove_unvalidated _ missing, remove_unvalidated _ missing]
    exact ⟨rfl, paired⟩

theorem openBatch {left right : Store} (id : left.id = right.id) (next : left.next = right.next)
    (stored : ∀ key, related (left.table.entry key) (right.table.entry key)) :
    left.openBatch.Paired related right.openBatch where
  id := id
  next := next
  stored := stored
  opened := by
    rw [Store.entry_openBatch, Store.entry_openBatch]
    exact stored

theorem commit (paired : left.Paired related right) : left.commit.openBatch.Paired related right.commit.openBatch := by
  refine @openBatch related left.commit right.commit paired.id paired.next ?_
  rw [entry_commit, entry_commit]
  exact paired.opened

theorem drop (paired : left.Paired related right) : left.drop.openBatch.Paired related right.drop.openBatch :=
  @openBatch related left.drop right.drop paired.id paired.next paired.stored

end Paired
end ReplicaRing.Batch
