import ReplicaRing.Proofs.Sessions

/-! What the entries of a store look like, whatever was asked of it. An entry in the table has something to tell.
Its siblings have different versions, each is filed under its own key with the hash of its data, and what it
supersedes is retired. A version is both live and retired only if its value says that it supersedes itself. -/

namespace ReplicaRing

namespace Entry

theorem occupied_of_told {entry : Entry} (told : entry.isVacant = false) :
    (∃ value, value ∈ entry.values) ∨ ∃ version, entry.Retired version := by
  by_contra nothing
  obtain ⟨noValue, noVersion⟩ := not_or.mp nothing
  have values : entry.values = [] := List.eq_nil_iff_forall_not_mem.mpr (not_exists.mp noValue)
  have retired : entry.retired = ∅ := Std.ExtTreeSet.eq_empty_iff_forall_not_mem.mpr (not_exists.mp noVersion)
  simp [isVacant, values, retired] at told

/-- What is known about a key fits together. -/
structure Coherent (key : String) (entry : Entry) : Prop where
  distinct : (entry.values.map (·.version)).Nodup
  keyed : ∀ value ∈ entry.values, value.key = key
  hashed : ∀ value ∈ entry.values, value.hash = Hash.Blake3.digest value.data
  superseded : ∀ value ∈ entry.values, ∀ parent ∈ value.parents, entry.Retired parent
  apart : ∀ value ∈ entry.values, entry.Retired value.version → value.version ∈ value.parents

theorem vacant_coherent (key : String) : vacant.Coherent key where
  distinct := List.nodup_nil
  keyed _ member := by cases member
  hashed _ member := by cases member
  superseded _ member := by cases member
  apart _ member := by cases member

namespace Coherent

variable {key : String} {entry : Entry} {values : List Value} {retired : Std.ExtTreeSet Version}

theorem restrict (coherent : entry.Coherent key) (fewer : values.Sublist entry.values)
    (grown : ∀ version, entry.Retired version → version ∈ retired)
    (unnamed : ∀ value ∈ values, value.version ∈ retired → entry.Retired value.version) :
    Coherent key { values, retired } where
  distinct := coherent.distinct.sublist (fewer.map _)
  keyed value member := coherent.keyed value (fewer.subset member)
  hashed value member := coherent.hashed value (fewer.subset member)
  superseded value member parent named :=
    grown parent (coherent.superseded value (fewer.subset member) parent named)
  apart value member both := coherent.apart value (fewer.subset member) (unnamed value member both)

theorem push (coherent : Coherent key { values, retired }) {value : Value} (keyed : value.key = key)
    (hashed : value.hash = Hash.Blake3.digest value.data) (new : ∀ other ∈ values, other.version ≠ value.version)
    (superseded : ∀ parent ∈ value.parents, parent ∈ retired)
    (apart : value.version ∈ retired → value.version ∈ value.parents) :
    Coherent key { values := values ++ [value], retired } where
  distinct := by
    rw [List.map_append, List.map_singleton, List.nodup_append]
    refine ⟨coherent.distinct, by simp, ?_⟩
    intro version member other single
    obtain ⟨sibling, present, rfl⟩ := List.mem_map.mp member
    rw [List.mem_singleton.mp single]
    exact new sibling present
  keyed := List.forall_mem_append.mpr ⟨coherent.keyed, List.forall_mem_singleton.mpr keyed⟩
  hashed := List.forall_mem_append.mpr ⟨coherent.hashed, List.forall_mem_singleton.mpr hashed⟩
  superseded := List.forall_mem_append.mpr ⟨coherent.superseded, List.forall_mem_singleton.mpr superseded⟩
  apart := List.forall_mem_append.mpr ⟨coherent.apart, List.forall_mem_singleton.mpr apart⟩

theorem granted {write : Write} {parents : List Version} {version : Version} {now : UInt64}
    (coherent : entry.Coherent write.key) (fresh : ¬ entry.Retired version) :
    (entry.granted write parents version now).Coherent write.key := by
  have others : Coherent write.key
      { values := (entry.unexpired now).filter fun value =>
          value.version ≠ version && !parents.contains value.version
        retired := entry.retired.insertMany parents } := by
    apply coherent.restrict
    · exact List.filter_sublist.trans List.filter_sublist
    · exact fun other before => mem_retire.mpr (Or.inl before)
    · intro value member both
      have unnamed : value.version ∉ parents := by
        have kept := (List.mem_filter.mp member).2
        simp only [Bool.and_eq_true, Bool.not_eq_true', List.contains_eq_mem, decide_eq_false_iff_not] at kept
        exact kept.2
      exact (mem_retire.mp both).resolve_right unnamed
  refine others.push rfl rfl ?_ (fun parent named => mem_retire.mpr (Or.inr named)) ?_
  · intro other member
    have kept := (List.mem_filter.mp member).2
    simp only [Bool.and_eq_true, decide_eq_true_eq] at kept
    exact kept.1
  · exact fun both => (mem_retire.mp both).resolve_left fresh

theorem write {write : Write} (coherent : entry.Coherent write.key) (parents : List Version) (version : Version)
    (now : UInt64) : (entry.write write parents version now).2.Coherent write.key := by
  rcases write_cases entry write parents version now with ⟨_, same⟩ | ⟨_, _, _, same⟩ | ⟨fresh, _, same⟩
  all_goals rw [same]
  · exact coherent
  · exact coherent.restrict List.filter_sublist (fun _ before => before) fun _ _ both => both
  · exact coherent.granted fresh

theorem remove (coherent : entry.Coherent key) (parents : List Version) :
    (entry.remove parents).2.Coherent key := by
  apply coherent.restrict
  · exact List.filter_sublist
  · exact fun version before => mem_retire.mpr (Or.inl before)
  · intro value member both
    have unnamed : value.version ∉ parents := (mem_remove.mp member).2
    exact (mem_retire.mp both).resolve_right unnamed

end Coherent
end Entry

namespace Table

/-- No key is kept that there is nothing to tell about. -/
def Tidy (table : Table) : Prop :=
  ∀ (key : String) (entry : Entry), table[key]? = some entry → entry.isVacant = false

theorem entry_of_found {table : Table} {key : String} {entry : Entry} (found : table[key]? = some entry) :
    table.entry key = entry := by
  rw [Table.entry, found]
  rfl

theorem tidy_empty : Tidy ∅ := by
  intro key entry found
  simp at found

end Table

theorem Batch.commit_tidy {batch : Batch} (tidy : batch.store.table.Tidy) : batch.commit.table.Tidy := by
  intro key entry found
  rw [batch.getElem?_commit] at found
  split at found
  · exact tidy key entry found
  · split at found
    · cases found
    · next told =>
      cases found
      simpa using told

theorem Store.after_tidy {store : Store} (tidy : store.table.Tidy) (acts : List Act) :
    (store.after acts).table.Tidy := by
  have kept (batch : Batch) (tidy : batch.store.table.Tidy) : (batch.acts acts).store.table.Tidy := by
    induction acts generalizing batch with
    | nil => exact tidy
    | cons act acts ih =>
      apply ih
      cases act with
      | call made =>
        rw [Batch.act, Batch.call_store]
        exact tidy
      | commit => exact Batch.commit_tidy tidy
      | drop => exact tidy
  exact kept store.openBatch tidy

theorem Store.after_coherent (id : StoreId) (acts : List Act) (key : String) :
    (((Store.fresh id).after acts).table.entry key).Coherent key ∧
      (((Store.fresh id).openBatch.acts acts).entry key).Coherent key := by
  have start : (Store.fresh id).table.entry key = .vacant :=
    congrFun (congrArg Holdings.entry (Store.holdings_fresh id)) key
  apply Store.keeps_own (·.Coherent key) acts
  · rintro write parents version now entry rfl coherent
    exact coherent.write parents version now
  · exact fun parents entry coherent => coherent.remove parents
  · rw [start]
    exact Entry.vacant_coherent key

/-- Whatever batches a store was given since it was new, committed or given up, each entry in its table has a live
value or a retired version and fits together, and so does what is seen in the batch that is open. -/
theorem Store.entries_coherent (id : StoreId) (acts : List Act) :
    (∀ (key : String) (entry : Entry), ((Store.fresh id).after acts).table[key]? = some entry →
      ((∃ value, value ∈ entry.values) ∨ ∃ version, entry.Retired version) ∧ entry.Coherent key) ∧
      ∀ key, (((Store.fresh id).openBatch.acts acts).entry key).Coherent key := by
  refine ⟨?_, fun key => (Store.after_coherent id acts key).2⟩
  intro key entry found
  have told := Store.after_tidy Table.tidy_empty acts key entry found
  have same : ((Store.fresh id).after acts).table.entry key = entry := Table.entry_of_found found
  exact ⟨Entry.occupied_of_told told, same ▸ (Store.after_coherent id acts key).1⟩

private def bid (data : Bytes) (parents : List Version) (expiresAt : Option UInt64) (optimistic : Bool)
    (assigned : Option Version) : Write :=
  { key := "k", data, parents := some parents, expiresAt, optimistic, assigned }

/-- A write that supersedes itself and a version nobody has seen, then a sibling that expires and a removal of
what never came. An optimistic write is refused in a batch that is given up, and the first write comes again. -/
private def muddle : List Act :=
  let selfish := bid [1] [⟨⟨1⟩, 1⟩, ⟨⟨2⟩, 5⟩] none false (some ⟨⟨1⟩, 1⟩)
  [.write 5 selfish, .commit,
    .write 5 (bid [2] [] (some 7) false none),
    .call (5, .remove { key := "k2", parents := some [⟨⟨3⟩, 3⟩] }), .commit,
    .write 9 (bid [3] [] none true none), .drop,
    .write 9 selfish, .commit]

/-- The version that supersedes itself is live and retired, as its value says, and the sibling that the refused
write would have cleared out is still there. The key that was only removed is kept too. -/
theorem muddle_coherent :
    (∃ entry, ((Store.fresh ⟨0⟩).after muddle).table["k"]? = some entry ∧
      entry.values.map (·.version) = [⟨⟨1⟩, 1⟩, ⟨⟨0⟩, 1⟩] ∧ entry.Retired ⟨⟨1⟩, 1⟩ ∧ entry.Coherent "k") ∧
      ∃ entry, ((Store.fresh ⟨0⟩).after muddle).table["k2"]? = some entry ∧ entry.values = [] ∧
        ∃ version, entry.Retired version := by
  obtain ⟨coherent, _⟩ := Store.entries_coherent ⟨0⟩ muddle
  constructor
  · have shape : (((Store.fresh ⟨0⟩).after muddle).table["k"]?).map (fun entry =>
        (entry.values.map (·.version), entry.retired.contains ⟨⟨1⟩, 1⟩)) =
          some ([⟨⟨1⟩, 1⟩, ⟨⟨0⟩, 1⟩], true) := by decide +kernel
    obtain ⟨entry, found, same⟩ := Option.map_eq_some_iff.mp shape
    obtain ⟨versions, retired⟩ := Prod.mk.inj same
    exact ⟨entry, found, versions, Std.ExtTreeSet.contains_iff_mem.mp retired, (coherent "k" entry found).2⟩
  · have shape : (((Store.fresh ⟨0⟩).after muddle).table["k2"]?).map (·.values) = some [] := by decide +kernel
    obtain ⟨entry, found, values⟩ := Option.map_eq_some_iff.mp shape
    refine ⟨entry, found, values, ?_⟩
    have occupied := (coherent "k2" entry found).1
    rw [values] at occupied
    exact occupied.resolve_left (by simp)

end ReplicaRing
