import ReplicaRing.Proofs.Expiring
import ReplicaRing.Proofs.Reordering

/-! What makes a value go from sight. It expires, or a write that is stored or a removal names its version as a
parent; nothing else takes it away, and what a write leaves beside its own value it reports as a conflict. So a
writer who would rather be refused than conflict replaces just the values that he names, and where all writers are
like that, there is never more than one value. -/

namespace ReplicaRing

namespace Entry

variable {entry : Entry} {write : Write} {parents : List Version} {version : Version} {now moment : UInt64}

theorem mem_visible {shown : Value} :
    shown ∈ entry.visible now ↔ ∃ value ∈ entry.values, value.isExpired now = false ∧ value.undated = shown := by
  simp only [visible, List.mem_map, mem_unexpired, and_assoc]

theorem unexpired_of_visible {shown : Value} (present : shown ∈ entry.visible now) : shown.isExpired now = false := by
  obtain ⟨value, _, lasting, rfl⟩ := mem_visible.mp present
  exact lasting

theorem visible_lasting {shown : Value} (present : shown ∈ entry.visible now)
    (lasting : shown.isExpired moment = false) : shown ∈ entry.visible moment := by
  obtain ⟨value, member, _, rfl⟩ := mem_visible.mp present
  exact mem_visible.mpr ⟨value, member, lasting, rfl⟩

theorem write_keeps_visible {shown : Value} (order : now ≤ moment) (present : shown ∈ entry.visible moment)
    (alike : (entry.write write parents version now).1.version = some version → version = shown.version →
      stored write parents version 0 = shown)
    (unnamed : ¬ entry.Retired version → (entry.write write parents version now).1.version = some version →
      shown.version ∉ parents) :
    shown ∈ (entry.write write parents version now).2.visible moment := by
  rcases write_cases entry write parents version now with ⟨_, same⟩ | ⟨_, _, _, same⟩ | ⟨fresh, _, same⟩
  · rw [same]
    exact present
  · rw [same]
    exact (visible_purged order entry).symm ▸ present
  · have accepted : (entry.write write parents version now).1.version = some version := by rw [same]
    have foreign := unnamed fresh accepted
    rw [same, visible_granted order, List.mem_append]
    by_cases own : version = shown.version
    · refine Or.inr ?_
      rw [alike accepted own, List.mem_filter, unexpired_of_visible present]
      exact ⟨List.mem_singleton.mpr rfl, rfl⟩
    · refine Or.inl (List.mem_filter.mpr ⟨present, ?_⟩)
      simp [Ne.symm own, foreign]

theorem remove_keeps_visible {shown : Value} (present : shown ∈ entry.visible moment)
    (unnamed : shown.version ∉ parents) : shown ∈ (entry.remove parents).2.visible moment := by
  rw [visible_remove, List.mem_filter]
  exact ⟨present, by simpa using unnamed⟩

/-- Every value was left by a write of the key that is noted down with its version. -/
def Noted (granted : List (Write × Version)) (key : String) (entry : Entry) : Prop :=
  ∀ value ∈ entry.values, ∃ write version, (write, version) ∈ granted ∧ write.key = key ∧
    stored write (write.parents.getD []) version 0 = value.undated

theorem mem_write_accepted {value : Value} (member : value ∈ (entry.write write parents version now).2.values) :
    value ∈ entry.values ∨ (entry.write write parents version now).1.version = some version ∧
      value = stored write parents version now := by
  rcases write_cases entry write parents version now with ⟨_, same⟩ | ⟨_, _, _, same⟩ | ⟨_, _, same⟩
  all_goals rw [same] at member ⊢
  · exact Or.inl member
  · exact Or.inl (mem_unexpired.mp member).1
  · exact (mem_granted.mp member).imp (fun old => (mem_unexpired.mp old.1).1) fun own => ⟨rfl, own⟩

/-- A write of a new version reports a conflict if something else is left when it is stored, and only then. -/
theorem write_conflict_iff (fresh : ¬ entry.Retired version)
    (accepted : (entry.write write parents version now).1.version = some version)
    (new : ∀ held ∈ entry.unexpired now, held.version ≠ version) :
    (entry.write write parents version now).1.conflict = true ↔
      ∃ other ∈ (entry.write write parents version now).2.unexpired now, other.version ≠ version := by
  rcases write_cases entry write parents version now with ⟨retired, _⟩ | ⟨_, _, _, same⟩ | ⟨_, _, same⟩
  · exact absurd retired fresh
  · rw [same] at accepted
    cases accepted
  · have absent : (entry.unexpired now).any (·.version = version) = false := by
      simpa [List.any_eq_false] using new
    rw [same]
    simp only [conflicts, absent, Bool.not_false, Bool.true_and, List.any_eq_true, Bool.not_eq_true',
      List.contains_eq_mem, decide_eq_false_iff_not]
    constructor
    · rintro ⟨other, present, unnamed⟩
      have foreign := new other present
      refine ⟨other, mem_unexpired.mpr ⟨mem_granted.mpr (Or.inl ⟨present, foreign, unnamed⟩), ?_⟩, foreign⟩
      exact (mem_unexpired.mp present).2
    · rintro ⟨other, left, foreign⟩
      rcases mem_granted.mp (mem_unexpired.mp left).1 with ⟨present, _, unnamed⟩ | rfl
      · exact ⟨other, present, unnamed⟩
      · exact absurd rfl foreign

/-- A write that is refused where it would conflict leaves at most one value where there was at most one. -/
theorem write_single (optimistic : write.optimistic = true) (single : entry.values.length ≤ 1) :
    (entry.write write parents version now).2.values.length ≤ 1 := by
  have few : (entry.unexpired now).length ≤ 1 := Nat.le_trans (List.length_filter_le _ _) single
  rcases write_cases entry write parents version now with ⟨_, same⟩ | ⟨_, _, _, same⟩ | ⟨_, firm, same⟩
  all_goals rw [same]
  · exact single
  · exact few
  · have clear : (entry.unexpired now).filter (fun value =>
        value.version ≠ version && !parents.contains value.version) = [] := by
      have calm : conflicts (entry.unexpired now) parents version = false := by
        rw [Bool.eq_false_iff]
        intro conflict
        rw [firm conflict] at optimistic
        cases optimistic
      cases present : entry.unexpired now with
      | nil => rfl
      | cons value others =>
        obtain rfl : others = [] := by simpa [present] using few
        simpa [conflicts, present] using calm
    rw [granted, clear]
    exact Nat.le_refl 1

end Entry

/-- The last batch has ended, and nothing has been asked in the next one. -/
def Act.Ended (acts : List Act) : Prop :=
  ∀ act ∈ acts.getLast?, act.time = none

namespace Batch

def seen (batch : Batch) (key : String) (now : UInt64) : List Value :=
  batch.read { key, version := none } now

/-- The write of an act with the version that it carries or is given. It must not be refused. -/
def grants (batch : Batch) : Act → List (Write × Version)
  | .call (now, .write write) =>
    match (batch.write write now).1 with
    | .ok { version := some version, .. } => [(write, version)]
    | _ => []
  | _ => []

def granted : Batch → List Act → List (Write × Version)
  | _, [] => []
  | batch, act :: acts => batch.grants act ++ granted (batch.act act) acts

/-- The write is stored under its version: it is not dropped because the version is retired, and not refused. -/
def Stores (batch : Batch) (now : UInt64) (write : Write) : Prop :=
  ¬ (batch.entry write.key).Retired (batch.stamp write).1 ∧
    ∃ result, (batch.write write now).1 = .ok result ∧ result.version = some (batch.stamp write).1

/-- The call is a removal, or a write that is stored, and names a version of a key as a parent. -/
def Supersedes (batch : Batch) (now : UInt64) (call : StoreCall) (key : String) (version : Version) : Prop :=
  call.Names key version ∧ ∀ write, call = .write write → batch.Stores now write

/-- Somewhere in a run, in a batch that is not given up, a call supersedes the version. -/
def Superseded (batch : Batch) (acts : List Act) (key : String) (version : Version) : Prop :=
  ∃ front now call back, acts = front ++ .call (now, call) :: back ∧ Act.Secured back ∧
    (batch.acts front).Supersedes now call key version

/-- A value that was found before some acts is found after them, if perhaps stored again by one of them, unless it has
expired or one of them supersedes it. -/
def Remains (batch : Batch) (acts : List Act) (key : String) (moment : UInt64) (value : Value) : Prop :=
  value.isExpired moment = true ∨ batch.Superseded acts key value.version ∨
    ∃ again ∈ (batch.acts acts).seen key moment, again.undated = value.undated

/-- Writes of a key that carry or are given the same version say the same. -/
def Unambiguous (batch : Batch) (acts : List Act) : Prop :=
  ∀ first ∈ batch.granted acts, ∀ second ∈ batch.granted acts, first.1.key = second.1.key → first.2 = second.2 →
    first.1.data = second.1.data ∧ first.1.parents = second.1.parents ∧ first.1.expiresAt = second.1.expiresAt

instance (batch : Batch) (acts : List Act) : Decidable (batch.Unambiguous acts) :=
  inferInstanceAs (Decidable (∀ first ∈ batch.granted acts, ∀ second ∈ batch.granted acts, _ → _ → _))

variable {batch : Batch} {key : String} {moment : UInt64}

theorem seen_unexpired (batch : Batch) (key : String) (now : UInt64) :
    batch.seen key now = (batch.entry key).unexpired now :=
  List.filter_eq_self.mpr fun _ _ => rfl

theorem mem_seen {now : UInt64} {shown : Value} :
    (∃ value ∈ batch.seen key now, value.undated = shown) ↔ shown ∈ (batch.entry key).visible now := by
  rw [seen_unexpired, Entry.visible, List.mem_map]

theorem mem_stamps {now : UInt64} {write : Write} {version : Version}
    (noted : (write, version) ∈ batch.stamps (.write now write)) :
    write.parents.isSome ∧ version = (batch.stamp write).1 := by
  simp only [stamps, Act.write] at noted
  split at noted
  · next validated => exact ⟨validated, congrArg Prod.snd (List.mem_singleton.mp noted)⟩
  · cases noted

theorem mem_grants {now : UInt64} {write : Write} {version : Version} (validated : write.parents.isSome)
    (accepted : ((batch.entry write.key).write write (write.parents.getD []) (batch.stamp write).1 now).1.version =
      some version) : (write, version) ∈ batch.grants (.call (now, .write write)) := by
  have answered := batch.write_answer write now validated
  generalize ((batch.entry write.key).write write (write.parents.getD []) (batch.stamp write).1 now).1 = result at *
  obtain ⟨_, conflict⟩ := result
  obtain rfl := accepted
  simp only [grants, answered, List.mem_singleton]

theorem granted_append (batch : Batch) (earlier later : List Act) :
    batch.granted (earlier ++ later) = batch.granted earlier ++ (batch.acts earlier).granted later := by
  induction earlier generalizing batch with
  | nil => rfl
  | cons act earlier ih =>
    rw [List.cons_append, granted, granted, ih, List.append_assoc]
    rfl

theorem Superseded.cons {acts : List Act} {version : Version} (act : Act)
    (superseded : (batch.act act).Superseded acts key version) : batch.Superseded (act :: acts) key version := by
  obtain ⟨front, now, call, back, rfl, secured, supersedes⟩ := superseded
  exact ⟨act :: front, now, call, back, rfl, secured, supersedes⟩

theorem call_keeps_visible {now : UInt64} {call : StoreCall} {shown : Value} (order : now ≤ moment)
    (present : shown ∈ (batch.entry key).visible moment)
    (alike : ∀ write version, (write, version) ∈ batch.grants (.call (now, call)) → write.key = key →
      version = shown.version → Entry.stored write (write.parents.getD []) version 0 = shown)
    (spared : ¬ batch.Supersedes now call key shown.version) :
    shown ∈ ((batch.call call now).2.entry key).visible moment := by
  apply call_keeps (fun entry => shown ∈ entry.visible moment) _ _ present
  · rintro write version rfl noted rfl
    obtain ⟨validated, rfl⟩ := mem_stamps noted
    apply Entry.write_keeps_visible order present
    · exact fun accepted => alike write _ (mem_grants validated accepted) rfl
    intro fresh accepted named
    refine spared ⟨⟨rfl, named⟩, ?_⟩
    rintro _ ⟨⟩
    exact ⟨fresh, _, batch.write_answer write now validated, accepted⟩
  · rintro removal rfl rfl
    apply Entry.remove_keeps_visible present
    intro named
    refine spared ⟨⟨rfl, named⟩, ?_⟩
    rintro _ ⟨⟩

/-- What is in sight stays there until it is superseded. It must be in the store already where the open batch is
given up, and need only be seen in the batch where it is not. -/
theorem acts_keep_visible {later : List Act} {shown : Value}
    (opened : Act.Secured later → shown ∈ (batch.entry key).visible moment)
    (stored : ¬ Act.Secured later → shown ∈ (batch.store.table.entry key).visible moment)
    (past : ∀ time ∈ later.filterMap Act.time, time ≤ moment)
    (alike : ∀ write version, (write, version) ∈ batch.granted later → write.key = key →
      version = shown.version → Entry.stored write (write.parents.getD []) version 0 = shown) :
    batch.Superseded later key shown.version ∨ shown ∈ ((batch.acts later).entry key).visible moment := by
  induction later generalizing batch with
  | nil => exact Or.inr (opened trivial)
  | cons act later ih =>
    have rest := fun held stored past => (@ih (batch.act act) held stored past fun write version noted =>
      alike write version (List.mem_append_right _ noted)).imp_left (Superseded.cons act)
    cases act with
    | call call =>
      obtain ⟨order, past⟩ := List.forall_mem_cons.mp past
      by_cases superseded : Act.Secured later ∧ batch.Supersedes call.1 call.2 key shown.version
      · exact Or.inl ⟨[], call.1, call.2, later, rfl, superseded⟩
      · apply rest _ _ past
        · intro secured
          apply call_keeps_visible order (opened secured)
          · exact fun write version noted => alike write version (List.mem_append_left _ noted)
          · exact fun supersedes => superseded ⟨secured, supersedes⟩
        · intro given
          rw [act, call_store]
          exact stored given
    | commit =>
      have kept := opened trivial
      apply rest _ _ past
      · intro _
        rw [act, Store.entry_openBatch, entry_commit]
        exact kept
      · intro _
        rw [act, Store.openBatch, entry_commit]
        exact kept
    | drop =>
      have kept := stored id
      apply rest _ _ past
      · intro _
        rw [act, Store.entry_openBatch]
        exact kept
      · exact fun _ => kept

theorem acts_noted {acts : List Act} {noted : List (Write × Version)} (all : ∀ pair ∈ batch.granted acts, pair ∈ noted)
    (stored : (batch.store.table.entry key).Noted noted key) (opened : (batch.entry key).Noted noted key) :
    ((batch.acts acts).entry key).Noted noted key := by
  induction acts generalizing batch with
  | nil => exact opened
  | cons act acts ih =>
    have rest := @ih (batch.act act) fun pair member => all pair (List.mem_append_right _ member)
    cases act with
    | call call =>
      obtain ⟨now, asked⟩ := call
      apply rest
      · rw [act, call_store]
        exact stored
      · apply call_keeps (Entry.Noted noted key) _ _ opened
        · rintro write version rfl stamped rfl value member
          obtain ⟨validated, rfl⟩ := mem_stamps stamped
          rcases Entry.mem_write_accepted member with old | ⟨accepted, rfl⟩
          · exact opened value old
          · have granted := all _ (List.mem_append_left _ (mem_grants validated accepted))
            exact ⟨write, _, granted, rfl, rfl⟩
        · exact fun removal _ _ value member => opened value (Entry.mem_remove.mp member).1
    | commit =>
      apply rest
      · rw [act, Store.openBatch, entry_commit]
        exact opened
      · rw [act, Store.entry_openBatch, entry_commit]
        exact opened
    | drop =>
      apply rest
      · exact stored
      · rw [act, Store.entry_openBatch]
        exact stored

theorem stamp_left (batch : Batch) (write : Write) : (batch.stamp write).2 =
    { batch with next := if write.assigned.isSome then batch.next else batch.next + 1 } := by
  unfold stamp
  cases write.assigned <;> rfl

theorem entry_stamp (batch : Batch) (write : Write) (key : String) :
    (batch.stamp write).2.entry key = batch.entry key := by
  rw [stamp_left]
  rfl

theorem write_ok {write : Write} {now : UInt64} {result : Written} (answered : (batch.write write now).1 = .ok result) :
    write.parents.isSome ∧
      result = ((batch.entry write.key).write write (write.parents.getD []) (batch.stamp write).1 now).1 := by
  have validated : write.parents.isSome := by
    by_contra missing
    rw [write_unvalidated _ _ (Option.not_isSome_iff_eq_none.mp missing)] at answered
    cases answered
  rw [write_answer _ _ _ validated, Except.ok.injEq] at answered
  exact ⟨validated, answered.symm⟩

theorem write_conflict_iff {write : Write} {now : UInt64} {result : Written}
    (answered : (batch.write write now).1 = .ok result) (stores : batch.Stores now write)
    (new : ∀ held ∈ batch.seen write.key now, held.version ≠ (batch.stamp write).1) :
    result.conflict = true ↔
      ∃ other ∈ (batch.write write now).2.seen write.key now, other.version ≠ (batch.stamp write).1 := by
  obtain ⟨fresh, _, same, accepted⟩ := stores
  obtain rfl := Except.ok.inj (answered.symm.trans same)
  obtain ⟨validated, rfl⟩ := write_ok answered
  rw [seen_unexpired] at new
  rw [seen_unexpired, entry_write _ _ _ validated, if_pos rfl]
  exact Entry.write_conflict_iff fresh accepted new

theorem write_refused_sheds {write : Write} {now : UInt64} {result : Written}
    (answered : (batch.write write now).1 = .ok result) (refused : result.version = none) :
    (batch.stamp write).2.Sheds now (batch.write write now).2 := by
  obtain ⟨validated, rfl⟩ := write_ok answered
  have purged : ((batch.entry write.key).write write (write.parents.getD []) (batch.stamp write).1 now).2 =
      (batch.entry write.key).purged now := by
    rcases (batch.entry write.key).write_cases write (write.parents.getD []) (batch.stamp write).1 now with
      ⟨_, same⟩ | ⟨_, _, _, same⟩ | ⟨_, _, same⟩
    · rw [same] at refused
      cases refused
    · rw [same, Entry.purged]
    · rw [same] at refused
      cases refused
  refine ⟨?_, ?_, ?_, ?_⟩
  · rw [write_store, stamp_left]
  · rw [next_write _ _ _ validated, stamp_left]
  · intro key
    rw [write_store, stamp_left]
    exact .refl _
  · intro key
    rw [entry_write _ _ _ validated, entry_stamp]
    split
    · next own =>
      subst own
      rw [purged]
      exact (Entry.Sheds.refl _).purged
    · exact .refl _

end Batch

namespace Store

variable {id : StoreId} {acts : List Act} {key : String} {now : UInt64}

theorem entry_fresh (id : StoreId) (key : String) : (fresh id).table.entry key = .vacant := by
  simp [fresh, Table.entry]

theorem visible_written {shown : Value} (present : shown ∈ (((fresh id).openBatch.acts acts).entry key).visible now) :
    ∃ write version, (write, version) ∈ (fresh id).openBatch.granted acts ∧ write.key = key ∧
      Entry.stored write (write.parents.getD []) version 0 = shown := by
  have vacant : Entry.vacant.Noted ((fresh id).openBatch.granted acts) key :=
    fun value member => absurd member List.not_mem_nil
  have noted := Batch.acts_noted (fun _ member => member) (entry_fresh id key ▸ vacant)
    (entry_openBatch (fresh id) ▸ entry_fresh id key ▸ vacant)
  obtain ⟨value, member, _, rfl⟩ := Entry.mem_visible.mp present
  exact noted value member

theorem acts_ended (ended : Act.Ended acts) : (fresh id).openBatch.acts acts = ((fresh id).after acts).openBatch := by
  rcases List.eq_nil_or_concat' acts with rfl | ⟨front, act, rfl⟩
  · rfl
  · have untimed : act.time = none := ended act List.getLast?_concat
    rw [after, Batch.acts_append]
    cases act with
    | call _ => cases untimed
    | commit => rfl
    | drop => rfl

theorem visible_stays {earlier later : List Act} {moment : UInt64} {shown : Value}
    (unambiguous : (fresh id).openBatch.Unambiguous (earlier ++ later))
    (found : shown ∈ (((fresh id).openBatch.acts earlier).entry key).visible now)
    (kept : Act.Ended earlier ∨ Act.Secured later)
    (past : ∀ time ∈ later.filterMap Act.time, time ≤ moment) (lasting : shown.isExpired moment = false) :
    ((fresh id).openBatch.acts earlier).Superseded later key shown.version ∨
      shown ∈ ((((fresh id).openBatch.acts earlier).acts later).entry key).visible moment := by
  apply Batch.acts_keep_visible
  · exact fun _ => Entry.visible_lasting found lasting
  · intro given
    rw [acts_ended (kept.resolve_right given), entry_openBatch] at found
    exact Entry.visible_lasting found lasting
  · exact past
  · intro write version noted own same
    obtain ⟨first, original, written, alike, rfl⟩ := visible_written found
    rw [Batch.Unambiguous, Batch.granted_append] at unambiguous
    obtain rfl : version = original := same
    obtain ⟨data, parents, expiry⟩ :
        first.data = write.data ∧ first.parents = write.parents ∧ first.expiresAt = write.expiresAt :=
      unambiguous _ (List.mem_append_left _ written) _ (List.mem_append_right _ noted) (alike.trans own.symm) rfl
    simp only [Entry.stored, own, alike, data, parents, expiry]

/-- In a run whose clock never goes back and whose versions stand for one write each, what a read finds stays in sight
until it expires or is superseded, whether it is found when a batch is opened or in a batch that is not given up. A
write that is stored under a new version reports a conflict if something else is left beside it, and only then. A
write that is refused changes nothing that is read or answered from then on, though a number may have been used up. If
all writes of a key would rather be refused than conflict, whether they bring their versions or not, no read ever
finds more than one value. -/
theorem superseded_or_seen (steady : Act.Steady acts) (unambiguous : (fresh id).openBatch.Unambiguous acts) :
    (∀ earlier later key now moment, acts = earlier ++ later → Act.Ended earlier ∨ Act.Secured later →
      (∀ time ∈ later.filterMap Act.time, time ≤ moment) →
      ∀ value ∈ ((fresh id).openBatch.acts earlier).seen key now,
        ((fresh id).openBatch.acts earlier).Remains later key moment value) ∧
      (∀ earlier now write later result, acts = earlier ++ .write now write :: later →
        let before := (fresh id).openBatch.acts earlier
        let after := (before.write write now).2
        (before.write write now).1 = .ok result →
        (before.Stores now write → (∀ held ∈ before.seen write.key now, held.version ≠ (before.stamp write).1) →
          (result.conflict = true ↔ ∃ other ∈ after.seen write.key now, other.version ≠ (before.stamp write).1)) ∧
        (result.version = none →
          (∀ read moment, now ≤ moment → after.read read moment = before.read read moment) ∧
            after.heard later = (before.stamp write).2.heard later)) ∧
      ∀ key, (∀ now write, .write now write ∈ acts → write.key = key → write.optimistic = true) →
        ∀ earlier later moment, acts = earlier ++ later →
          (((fresh id).openBatch.acts earlier).seen key moment).length ≤ 1 := by
  refine ⟨?_, ?_, ?_⟩
  · rintro earlier later key now moment rfl kept past value found
    cases expired : value.isExpired moment with
    | true => exact Or.inl expired
    | false =>
      have shown := Batch.mem_seen.mp ⟨value, found, rfl⟩
      exact Or.inr ((visible_stays unambiguous shown kept past expired).imp_right Batch.mem_seen.mpr)
  · rintro earlier now write later result rfl before after answered
    refine ⟨Batch.write_conflict_iff answered, ?_⟩
    intro refused
    obtain ⟨_, ahead, steady⟩ := steady.around
    have sheds := Batch.write_refused_sheds answered refused
    refine ⟨?_, (sheds.heard ahead steady).symm⟩
    intro read moment order
    have same := ((sheds.later order).opened read.key).unexpired
    rw [Batch.entry_stamp] at same
    rw [Batch.read, Batch.read, Entry.read, Entry.read, same]
  · rintro key optimistic earlier later moment rfl
    have single : (((fresh id).openBatch.acts earlier).entry key).values.length ≤ 1 := by
      apply Batch.acts_keeps fun entry => entry.values.length ≤ 1
      · intro now write version entry made _ own few
        exact Entry.write_single (optimistic now write (List.mem_append_left _ made) own) few
      · exact fun _ _ _ _ _ few => Nat.le_trans (List.length_filter_le _ _) few
      · exact Or.inr (entry_fresh id key ▸ Nat.zero_le 1)
      · exact entry_openBatch (fresh id) ▸ entry_fresh id key ▸ Nat.zero_le 1
    rw [Batch.seen_unexpired]
    exact Nat.le_trans (List.length_filter_le _ _) single

private def swap (parents : List Version) : Write where
  key := "k"
  data := [1]
  parents := some parents
  expiresAt := none
  optimistic := true
  assigned := none

private def opening : List Act :=
  [.write 1 (swap []), .commit]

/-- Two writers have seen the first value. The one who comes later is refused. -/
private def contest : List Act :=
  [.write 2 (swap [⟨⟨0⟩, 1⟩]), .commit, .write 3 (swap [⟨⟨0⟩, 1⟩]), .call (4, .read { key := "k", version := none })]

theorem contest_superseded :
    let first := (fresh ⟨0⟩).openBatch.acts opening
    let second := (fresh ⟨0⟩).openBatch.acts (opening ++ contest.take 2)
    let final := (fresh ⟨0⟩).openBatch.acts (opening ++ contest)
    first.Superseded contest "k" ⟨⟨0⟩, 1⟩ ∧
      (∀ other ∈ (first.write (swap [⟨⟨0⟩, 1⟩]) 2).2.seen "k" 2, other.version = ⟨⟨0⟩, 2⟩) ∧
      (second.write (swap [⟨⟨0⟩, 1⟩]) 3).2.seen "k" 4 = second.seen "k" 4 ∧
      (final.seen "k" 4).length ≤ 1 ∧ (final.seen "k" 4).map (·.version) = [⟨⟨0⟩, 2⟩] := by
  intro first second final
  have steady : Act.Steady (opening ++ contest) := by decide +kernel
  have unambiguous : (fresh ⟨0⟩).openBatch.Unambiguous (opening ++ contest) := by decide +kernel
  obtain ⟨stays, told, single⟩ := superseded_or_seen steady unambiguous
  refine ⟨?_, ?_, ?_, ?_, by decide +kernel⟩
  · have found : ∃ value ∈ first.seen "k" 1, value.version = ⟨⟨0⟩, 1⟩ ∧ value.expiresAt = none := by decide +kernel
    have gone : ∀ value ∈ final.seen "k" 4, value.version ≠ ⟨⟨0⟩, 1⟩ := by decide +kernel
    have times : contest.filterMap Act.time = [2, 3, 4] := rfl
    have past : ∀ time ∈ contest.filterMap Act.time, time ≤ 4 := by simp [times]
    obtain ⟨value, found, version, lasting⟩ := found
    rcases stays opening contest "k" 1 4 rfl (Or.inr trivial) past value found with
      expired | superseded | ⟨again, left, same⟩
    · rw [Entry.isExpired_of_lasting lasting] at expired
      cases expired
    · exact version ▸ superseded
    · exact absurd ((congrArg Value.version same).trans version) (gone again left)
  · have answered : (first.write (swap [⟨⟨0⟩, 1⟩]) 2).1 = .ok { version := some ⟨⟨0⟩, 2⟩, conflict := false } := by
      decide +kernel
    have stores : first.Stores 2 (swap [⟨⟨0⟩, 1⟩]) := ⟨by decide +kernel, _, answered, by decide +kernel⟩
    have calm := (told opening 2 _ (contest.drop 1) _ rfl answered).1 stores (by decide +kernel)
    intro other left
    by_contra foreign
    cases calm.mpr ⟨other, left, foreign⟩
  · have answered : (second.write (swap [⟨⟨0⟩, 1⟩]) 3).1 = .ok { version := none, conflict := true } := by
      decide +kernel
    have unchanged := (told (opening ++ contest.take 2) 3 _ (contest.drop 3) _ rfl answered).2 rfl
    exact unchanged.1 _ 4 (by decide)
  · have optimistic : ∀ now write, .write now write ∈ opening ++ contest → write.key = "k" →
        write.optimistic = true := by
      intro now write made _
      simp only [opening, contest, Act.write, List.cons_append, List.nil_append, List.mem_cons, List.not_mem_nil,
        Act.call.injEq, Prod.mk.injEq, StoreCall.write.injEq, reduceCtorEq, and_false, or_false, false_or] at made
      rcases made with ⟨_, rfl⟩ | ⟨_, rfl⟩ | ⟨_, rfl⟩
      all_goals rfl
    exact single "k" optimistic _ [] 4 (List.append_nil _).symm

end Store
end ReplicaRing
