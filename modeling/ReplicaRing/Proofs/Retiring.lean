import ReplicaRing.Proofs.Sessions

/-! What a store never forgets. A version that was superseded or removed stays retired, and one that is no longer
live stays away, however it comes again: as a late copy, as a copy that came before, or as a number that the
store only then gets to. -/

namespace ReplicaRing

theorem Table.mem_of_retired {table : Table} {key : String} {version : Version}
    (retired : (table.entry key).Retired version) : key ∈ table := by
  by_contra missing
  rw [Table.entry, getElem?_neg table key missing] at retired
  exact Entry.vacant_not_retired version retired

/-- In every later state a retired version is retired, so that its key is never dropped from the table. If it is
not live it is never live again, neither in the store nor in a batch. -/
theorem Store.retired_for_good (store : Store) (acts : List Act) {key : String} {version : Version}
    (retired : (store.table.entry key).Retired version) :
    key ∈ (store.after acts).table ∧
      ((store.after acts).table.entry key).Retired version ∧
      ((store.openBatch.acts acts).entry key).Retired version ∧
      (¬ (store.table.entry key).Live version →
        ¬ ((store.after acts).table.entry key).Live version ∧
          ¬ ((store.openBatch.acts acts).entry key).Live version) := by
  obtain ⟨stored, seen⟩ := Store.keeps (·.Retired version) acts
    (fun _ _ _ _ _ kept => Entry.write_keeps_retired kept)
    (fun _ _ kept => Entry.remove_retired.mpr (Or.inl kept)) retired
  refine ⟨Table.mem_of_retired stored, stored, seen, ?_⟩
  intro dead
  obtain ⟨storedGone, seenGone⟩ := Store.keeps (·.Gone version) acts
    (fun _ _ _ _ _ gone => Entry.write_keeps_gone gone) (fun _ _ gone => Entry.remove_keeps_gone gone) ⟨retired, dead⟩
  exact ⟨storedGone.2, seenGone.2⟩

private def warned : Store :=
  (Store.fresh ⟨0⟩).after
    [.call (0, .remove { key := "k", parents := some [⟨⟨1⟩, 1⟩, ⟨⟨0⟩, 1⟩] }), .commit]

private def attempted (assigned : Option Version) : Act :=
  .call (1, .write { key := "k", data := [1], parents := some [], expiresAt := none, optimistic := false, assigned })

private def insistence : List Act :=
  [attempted (some ⟨⟨1⟩, 1⟩), .commit, attempted (some ⟨⟨1⟩, 1⟩), attempted none, .drop, attempted none, .commit]

/-- The client's first write was given the number that is retired. Only its second one is stored. -/
theorem warned_for_good :
    (∀ version ∈ [(⟨⟨1⟩, 1⟩ : Version), ⟨⟨0⟩, 1⟩],
      ((warned.after insistence).table.entry "k").Retired version ∧
        ¬ ((warned.after insistence).table.entry "k").Live version) ∧
      ((warned.after insistence).table.entry "k").Live ⟨⟨0⟩, 2⟩ := by
  refine ⟨?_, by decide +kernel⟩
  intro version member
  have before : ∀ version ∈ [(⟨⟨1⟩, 1⟩ : Version), ⟨⟨0⟩, 1⟩],
      (warned.table.entry "k").Retired version ∧ ¬ (warned.table.entry "k").Live version := by decide +kernel
  obtain ⟨retired, dead⟩ := before version member
  obtain ⟨_, stored, _, gone⟩ := warned.retired_for_good insistence retired
  exact ⟨stored, (gone dead).1⟩

end ReplicaRing
