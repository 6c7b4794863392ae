import Mathlib.Data.Multiset.Basic
import ReplicaRing.Proofs.Likeness
import ReplicaRing.Proofs.Pairing

/-! A copy that comes again. Once a store has taken in a copy, its version is retired, or its value is there, or
the value has expired; and what the copy supersedes is gone. In each of these states the copy can come again and
nobody will tell: all that it changes is the order of the siblings, the time at which one was stored, and whether
an expired value is still kept. -/

namespace ReplicaRing

namespace Entry

/-- The same versions are retired, and the same values unexpired, in whatever order they were stored and whenever. -/
structure Akin (now : UInt64) (left right : Entry) : Prop where
  visible : (left.visible now).Perm (right.visible now)
  retired : left.retired = right.retired

theorem conflicts_perm {left right : List Value} (perm : left.Perm right) (parents : List Version) (version : Version) :
    conflicts left parents version = conflicts right parents version := by
  unfold conflicts
  rw [perm.any_eq, perm.any_eq]

namespace Akin

variable {now : UInt64} {left right : Entry}

theorem refl (entry : Entry) : entry.Akin now entry :=
  ⟨.refl _, rfl⟩

theorem later {later : UInt64} (akin : left.Akin now right) (order : now ≤ later) : left.Akin later right where
  visible := by
    rw [visible_later order, visible_later order]
    exact akin.visible.filter _
  retired := akin.retired

theorem read (akin : left.Akin now right) (version : Option Version) :
    ((left.read version now).map Value.undated).Perm ((right.read version now).map Value.undated) := by
  rw [read_visible, read_visible]
  exact akin.visible.filter _

theorem write (akin : left.Akin now right) (write : Write) (parents : List Version) (version : Version) :
    (left.write write parents version now).1 = (right.write write parents version now).1 ∧
      (left.write write parents version now).2.Akin now (right.write write parents version now).2 := by
  have conflict : conflicts (left.unexpired now) parents version = conflicts (right.unexpired now) parents version := by
    rw [conflicts_visible, conflicts_visible, conflicts_perm akin.visible]
  have either : left.Retired version ↔ right.Retired version := by
    rw [Retired, Retired, akin.retired]
  rcases write_cases left write parents version now with
    ⟨retired, same⟩ | ⟨fresh, conflicting, optimistic, same⟩ | ⟨fresh, firm, same⟩
  · rw [same, write_of_retired (either.mp retired)]
    exact ⟨rfl, akin⟩
  · rw [same, write_of_refused (either.not.mp fresh) (conflict ▸ conflicting) optimistic]
    refine ⟨rfl, ?_, akin.retired⟩
    rw [visible_purged (UInt64.le_refl now), visible_purged (UInt64.le_refl now)]
    exact akin.visible
  · rw [same, write_of_granted (either.not.mp fresh) (conflict ▸ firm), conflict]
    refine ⟨rfl, ?_, ?_⟩
    · rw [visible_granted (UInt64.le_refl now), visible_granted (UInt64.le_refl now)]
      exact (akin.visible.filter _).append_right _
    · rw [granted, granted, akin.retired]

theorem remove (akin : left.Akin now right) (parents : List Version) :
    (left.remove parents).2.Akin now (right.remove parents).2 where
  visible := by
    rw [visible_remove, visible_remove]
    exact akin.visible.filter _
  retired := by rw [Entry.remove, Entry.remove, akin.retired]

end Akin

/-- The entry has nothing to learn from a copy any more: its version is retired, or else its parents are gone and,
of its version, its own value is seen as long as it has not expired, and nothing else. -/
def Absorbed (write : Write) (parents : List Version) (version : Version) (now : UInt64) (entry : Entry) : Prop :=
  entry.Retired version ∨ (∀ parent ∈ parents, entry.Gone parent) ∧
    (entry.visible now).filter (·.version = version) =
      [stored write parents version 0].filter fun value => !value.isExpired now

section Absorbed

variable {entry : Entry} {write : Write} {parents : List Version} {version : Version} {earlier now : UInt64}

theorem write_absorbed (order : earlier ≤ now)
    (accepted : (entry.write write parents version earlier).1.version = some version) :
    Absorbed write parents version now (entry.write write parents version earlier).2 := by
  rcases write_cases entry write parents version earlier with ⟨retired, same⟩ | ⟨_, _, _, same⟩ | ⟨_, _, same⟩
  · rw [same]
    exact Or.inl retired
  · rw [same] at accepted
    cases accepted
  · by_cases own : version ∈ parents
    · refine Or.inl ?_
      rw [same]
      exact mem_retire.mpr (Or.inr own)
    · rw [same]
      exact Or.inr ⟨fun _ named => granted_makes_gone own named, visible_granted_own order⟩

theorem write_keeps_absorbed {other : Write} {named : List Version} {stamp : Version} (order : earlier ≤ now)
    (alike : stamp = version → other = write ∧ named = parents) (absorbed : Absorbed write parents version now entry) :
    Absorbed write parents version now (entry.write other named stamp earlier).2 := by
  rcases absorbed with retired | ⟨gone, seen⟩
  · exact Or.inl (write_keeps_retired retired)
  have stillGone : ∀ parent ∈ parents, (entry.write other named stamp earlier).2.Gone parent :=
    fun parent member => write_keeps_gone (gone parent member)
  rcases write_cases entry other named stamp earlier with ⟨_, same⟩ | ⟨_, _, _, same⟩ | ⟨_, _, same⟩
  · rw [same]
    exact Or.inr ⟨gone, seen⟩
  · refine Or.inr ⟨stillGone, ?_⟩
    rw [same, visible_purged order]
    exact seen
  · by_cases again : stamp = version
    · obtain ⟨rfl, rfl⟩ := alike again
      subst again
      exact write_absorbed order (by rw [same])
    · by_cases superseded : version ∈ named
      · refine Or.inl ?_
        rw [same]
        exact mem_retire.mpr (Or.inr superseded)
      · refine Or.inr ⟨stillGone, ?_⟩
        rw [same, visible_granted_other order (Ne.symm again) superseded]
        exact seen

theorem remove_keeps_absorbed {named : List Version} (absorbed : Absorbed write parents version now entry) :
    Absorbed write parents version now (entry.remove named).2 := by
  rcases absorbed with retired | ⟨gone, seen⟩
  · exact Or.inl (remove_retired.mpr (Or.inl retired))
  by_cases removed : version ∈ named
  · exact Or.inl (remove_retired.mpr (Or.inr removed))
  · refine Or.inr ⟨fun parent member => remove_keeps_gone (gone parent member), ?_⟩
    rw [visible_remove, List.filter_filter, ← seen]
    refine List.filter_congr fun value _ => ?_
    by_cases own : value.version = version
    · simp [own, removed]
    · simp [own]

/-- A copy that was taken in changes nothing that can be seen when it comes again. -/
theorem Absorbed.write_akin (absorbed : Absorbed write parents version now entry) :
    (entry.write write parents version now).2.Akin now entry := by
  rcases absorbed with retired | ⟨gone, seen⟩
  · rw [write_late retired]
    exact .refl entry
  rcases write_cases entry write parents version now with ⟨_, same⟩ | ⟨_, _, _, same⟩ | ⟨_, _, same⟩
  · rw [same]
    exact .refl entry
  · rw [same]
    refine ⟨?_, rfl⟩
    rw [visible_purged (UInt64.le_refl now)]
  · rw [same]
    constructor
    · -- the parents are gone, so that only the value itself is taken out and put at the end
      have others : ((entry.visible now).filter fun value =>
          decide (value.version ≠ version) && !parents.contains value.version) =
            (entry.visible now).filter fun value => !decide (value.version = version) := by
        refine List.filter_congr fun value member => ?_
        obtain ⟨original, present, rfl⟩ := List.mem_map.mp member
        have unnamed : original.version ∉ parents :=
          fun named => (gone _ named).2 ⟨original, (mem_unexpired.mp present).1, rfl⟩
        have kept : (!parents.contains original.undated.version) = true := by simpa [Value.undated] using unnamed
        rw [kept, Bool.and_true, decide_not]
      rw [visible_granted (UInt64.le_refl now), others, ← seen]
      exact List.perm_append_comm.trans (List.filter_append_perm _ _)
    · apply Std.ExtTreeSet.ext_mem
      intro other
      rw [granted, mem_retire]
      exact or_iff_left_of_imp fun named => (gone other named).1

end Absorbed

end Entry

/-- What is seen of an answer: of a read the values, in no order and whenever they were stored, and of a removal
only that it was made. -/
inductive Sight where
  | written (result : Written)
  | values (found : Multiset Value)
  | removed

def StoreAnswer.sight : StoreAnswer → Sight
  | written result => .written result
  | values found => .values (found.map Value.undated)
  | removed _ => .removed

namespace Batch

/-- What is seen of the answers in a run. -/
def sights (batch : Batch) (acts : List Act) : List (Except StoreFault Sight) :=
  (batch.answers acts).map (·.map StoreAnswer.sight)

structure Akin (now : UInt64) (left right : Batch) : Prop where
  id : left.store.id = right.store.id
  next : left.next = right.next
  stored : ∀ key, (left.store.table.entry key).Akin now (right.store.table.entry key)
  opened : ∀ key, (left.entry key).Akin now (right.entry key)

namespace Akin

variable {now : UInt64} {left right : Batch}

theorem iff_paired : left.Akin now right ↔ left.Paired (Entry.Akin now) right :=
  ⟨fun akin => ⟨akin.id, akin.next, akin.stored, akin.opened⟩,
    fun paired => ⟨paired.id, paired.next, paired.stored, paired.opened⟩⟩

theorem later {later : UInt64} (akin : left.Akin now right) (order : now ≤ later) : left.Akin later right :=
  iff_paired.mpr ((iff_paired.mp akin).mono fun _ _ entry => entry.later order)

theorem write (akin : left.Akin now right) (write : Write) :
    (left.write write now).1 = (right.write write now).1 ∧
      (left.write write now).2.Akin now (right.write write now).2 := by
  obtain ⟨answered, after⟩ := (iff_paired.mp akin).write write now fun _ _ parents version entry =>
    entry.write write parents version
  exact ⟨answered, iff_paired.mpr after⟩

theorem remove (akin : left.Akin now right) (removal : Removal) :
    ((left.remove removal).1.map StoreAnswer.removed).map StoreAnswer.sight =
        ((right.remove removal).1.map StoreAnswer.removed).map StoreAnswer.sight ∧
      (left.remove removal).2.Akin now (right.remove removal).2 := by
  obtain ⟨answered, after⟩ := (iff_paired.mp akin).remove removal fun _ _ parents entry => entry.remove parents
  have sight (flag : Except StoreFault Bool) : (flag.map StoreAnswer.removed).map StoreAnswer.sight =
      (flag.map fun _ => ()).map fun _ => Sight.removed := by
    cases flag <;> rfl
  refine ⟨?_, iff_paired.mpr after⟩
  rw [sight, sight, answered]

theorem call (akin : left.Akin now right) (call : StoreCall) :
    (left.call call now).1.map StoreAnswer.sight = (right.call call now).1.map StoreAnswer.sight ∧
      (left.call call now).2.Akin now (right.call call now).2 := by
  cases call with
  | write write =>
    obtain ⟨answered, after⟩ := akin.write write
    refine ⟨?_, after⟩
    simp only [Batch.call, answered]
  | read read =>
    refine ⟨?_, akin⟩
    have same := (akin.opened read.key).read read.version
    exact congrArg (fun found => Except.ok (Sight.values found)) (Multiset.coe_eq_coe.mpr same)
  | remove removal => exact akin.remove removal

theorem commit (akin : left.Akin now right) : left.commit.openBatch.Akin now right.commit.openBatch :=
  iff_paired.mpr (iff_paired.mp akin).commit

theorem drop (akin : left.Akin now right) : left.drop.openBatch.Akin now right.drop.openBatch :=
  iff_paired.mpr (iff_paired.mp akin).drop

theorem sights (akin : left.Akin now right) {acts : List Act} (ahead : ∀ time ∈ acts.filterMap Act.time, now ≤ time)
    (steady : Act.Steady acts) : left.sights acts = right.sights acts := by
  induction acts generalizing now left right with
  | nil => rfl
  | cons act acts ih =>
    cases act with
    | call call =>
      obtain ⟨upcoming, steady⟩ := List.pairwise_cons.mp steady
      obtain ⟨answered, after⟩ := (akin.later (ahead call.1 List.mem_cons_self)).call call.2
      exact congrArg₂ List.cons answered (ih after upcoming steady)
    | commit => exact ih akin.commit ahead steady
    | drop => exact ih akin.drop ahead steady

end Akin

/-- A copy that was taken in leaves the batch as it was when it comes again, as far as anybody can tell. -/
theorem write_akin {batch : Batch} {copy : Write} {version : Version} {now : UInt64}
    (assigned : copy.assigned = some version)
    (absorbed : (batch.entry copy.key).Absorbed copy (copy.parents.getD []) version now) :
    (batch.write copy now).2.Akin now batch := by
  by_cases validated : copy.parents.isSome
  · have stamp : (batch.stamp copy).1 = version := by
      rw [Batch.stamp, assigned]
    refine ⟨?_, ?_, ?_, ?_⟩
    · rw [write_store]
    · rw [next_write _ _ _ validated, assigned]
      rfl
    · intro key
      rw [write_store]
      exact .refl _
    · intro key
      rw [entry_write _ _ _ validated, stamp]
      split
      · next own => exact own ▸ absorbed.write_akin
      · exact .refl _
  · rw [write_unvalidated _ _ (Option.not_isSome_iff_eq_none.mp validated)]
    exact ⟨rfl, rfl, fun _ => .refl _, fun _ => .refl _⟩

/-- A copy was accepted, in a batch that has not been given up since, and no other write came or was made here
under its version. Then nobody can tell from any later answer whether it has come once more. -/
theorem duplicate_unseen {batch : Batch} {copy : Write} {version : Version} {conflict : Bool} {first again : UInt64}
    {between after : List Act} (assigned : copy.assigned = some version)
    (accepted : (batch.write copy first).1 = .ok { version := some version, conflict })
    (secured : Act.Secured between)
    (alike : ∀ other ∈ (batch.write copy first).2.stamped between, other.2 = version → other.1 = copy)
    (steady : Act.Steady (.write first copy :: between ++ .write again copy :: after)) :
    (batch.acts (.write first copy :: between ++ [.write again copy])).sights after =
      (batch.acts (.write first copy :: between)).sights after := by
  have validated : copy.parents.isSome := by
    by_contra missing
    rw [write_unvalidated _ _ (Option.not_isSome_iff_eq_none.mp missing)] at accepted
    cases accepted
  have stamp : (batch.stamp copy).1 = version := by
    rw [Batch.stamp, assigned]
  rw [write_answer _ _ _ validated, stamp, Except.ok.injEq] at accepted
  obtain ⟨past, ahead, onward⟩ := steady.around
  have absorbed : (((batch.write copy first).2.acts between).entry copy.key).Absorbed copy (copy.parents.getD []) version
      again := by
    apply acts_keeps (Entry.Absorbed copy (copy.parents.getD []) version again)
    · intro now other stamped entry made noted _ kept
      apply Entry.write_keeps_absorbed (past now _ (List.mem_cons_of_mem _ made)) _ kept
      rintro rfl
      obtain rfl := alike _ noted rfl
      exact ⟨rfl, rfl⟩
    · exact fun _ _ _ _ _ kept => Entry.remove_keeps_absorbed kept
    · exact Or.inl secured
    · rw [entry_write _ _ _ validated, if_pos rfl, stamp]
      exact Entry.write_absorbed (past first _ List.mem_cons_self) (congrArg Written.version accepted)
  rw [acts_append]
  exact (write_akin assigned absorbed).sights ahead onward

/-- A copy that would rather be refused than conflict, and soon expires. -/
private def fleeting : Write where
  key := "k"
  data := [1]
  parents := some []
  expiresAt := some 10
  optimistic := true
  assigned := some ⟨⟨1⟩, 1⟩

private def sibling : Write :=
  { fleeting with expiresAt := none, optimistic := false, assigned := none }

private def meanwhile : List Act :=
  [.commit, .write 2 sibling, .commit]

/-- The key is read, and again when the copy has expired. It comes a third time in a batch that is given up. -/
private def afterwards : List Act :=
  [.call (4, .read { key := "k", version := none }), .commit, .call (10, .read { key := "k", version := none }),
    .write 11 fleeting, .drop, .write 12 sibling]

/-- The copy gets a sibling before it comes again, which puts it behind that sibling. -/
theorem fleeting_unseen :
    ((Store.fresh ⟨0⟩).openBatch.acts (.write 1 fleeting :: meanwhile ++ [.write 3 fleeting])).sights afterwards =
        ((Store.fresh ⟨0⟩).openBatch.acts (.write 1 fleeting :: meanwhile)).sights afterwards ∧
      (((Store.fresh ⟨0⟩).openBatch.acts (.write 1 fleeting :: meanwhile)).entry "k").values.map (·.version) =
        [⟨⟨1⟩, 1⟩, ⟨⟨0⟩, 1⟩] ∧
      (((Store.fresh ⟨0⟩).openBatch.acts (.write 1 fleeting :: meanwhile ++ [.write 3 fleeting])).entry "k").values.map
        (·.version) = [⟨⟨0⟩, 1⟩, ⟨⟨1⟩, 1⟩] := by
  have accepted : ((Store.fresh ⟨0⟩).openBatch.write fleeting 1).1 =
      .ok { version := some ⟨⟨1⟩, 1⟩, conflict := false } := by decide +kernel
  have alike : ∀ other ∈ ((Store.fresh ⟨0⟩).openBatch.write fleeting 1).2.stamped meanwhile,
      other.2 = ⟨⟨1⟩, 1⟩ → other.1 = fleeting := by decide +kernel
  have steady : Act.Steady (.write 1 fleeting :: meanwhile ++ .write 3 fleeting :: afterwards) := by decide +kernel
  exact ⟨duplicate_unseen rfl accepted trivial alike steady, by decide +kernel, by decide +kernel⟩

end Batch
end ReplicaRing
