import Mathlib.Data.List.Induction
import ReplicaRing.Proofs.Holdings

/-! Copies that reach a store in any order. What is superseded or removed before it comes stays away,
whatever the order and however often it comes. But a copy that is dropped because its own version was
retired takes along what it had to say of its parents, so that the order can still be told from what
is left. -/

namespace ReplicaRing
namespace StoreCall

/-- The call brings a copy of a key under a version. One without parents is no valid write and brings nothing. -/
def Brings (call : StoreCall) (key : String) (version : Version) : Prop :=
  match call with
  | write item => item.key = key ∧ item.parents.isSome = true ∧ item.assigned = some version
  | _ => False

/-- The call supersedes or removes a version of a key. -/
def Names (call : StoreCall) (key : String) (version : Version) : Prop :=
  match call with
  | write item => item.key = key ∧ version ∈ item.parents.getD []
  | read _ => False
  | remove item => item.key = key ∧ version ∈ item.parents.getD []

/-- What holders tell each other: a write that carries its version, may not be refused, does not expire
and does not supersede itself, or a removal. -/
def Forwarded (call : StoreCall) : Prop :=
  match call with
  | write item => item.optimistic = false ∧ item.expiresAt = none ∧ item.assigned.isSome = true ∧
      ∀ version ∈ item.assigned, version ∉ item.parents.getD []
  | read _ => False
  | remove _ => True

instance : (call : StoreCall) → Decidable call.Forwarded
  | write item => inferInstanceAs (Decidable (item.optimistic = false ∧ item.expiresAt = none ∧
      item.assigned.isSome = true ∧ ∀ version ∈ item.assigned, version ∉ item.parents.getD []))
  | read _ => inferInstanceAs (Decidable False)
  | remove _ => inferInstanceAs (Decidable True)

instance : (call : StoreCall) → (key : String) → (version : Version) → Decidable (call.Brings key version)
  | write item, key, version => inferInstanceAs
      (Decidable (item.key = key ∧ item.parents.isSome = true ∧ item.assigned = some version))
  | read _, _, _ => inferInstanceAs (Decidable False)
  | remove _, _, _ => inferInstanceAs (Decidable False)

instance : (call : StoreCall) → (key : String) → (version : Version) → Decidable (call.Names key version)
  | write item, key, version => inferInstanceAs (Decidable (item.key = key ∧ version ∈ item.parents.getD []))
  | read _, _, _ => inferInstanceAs (Decidable False)
  | remove item, key, version => inferInstanceAs (Decidable (item.key = key ∧ version ∈ item.parents.getD []))

def given : StoreCall → Option Version
  | write item => item.assigned
  | _ => none

end StoreCall

/-- Makes some calls one after the other, each at its clock reading. One that fails does not end the batch. -/
def Batch.makes (batch : Batch) (calls : List (UInt64 × StoreCall)) : Batch :=
  calls.foldl (fun batch call => (batch.call call.2 call.1).2) batch

def Store.commits (store : Store) (batches : List (List (UInt64 × StoreCall))) : Store :=
  batches.foldl (fun store calls => (store.openBatch.makes calls).commit) store

namespace Holdings

/-- The holdings after a call. One without parents fails and changes nothing. -/
def make (held : Holdings) (now : UInt64) (call : StoreCall) : Holdings :=
  match call with
  | .write write => if write.parents.isSome then held.enter now write else held
  | .read _ => held
  | .remove removal => if removal.parents.isSome then held.strike removal else held

def makeAll : Holdings → List (UInt64 × StoreCall) → Holdings :=
  List.foldl fun held call => held.make call.1 call.2

theorem makeAll_append (held : Holdings) (front back : List (UInt64 × StoreCall)) :
    held.makeAll (front ++ back) = (held.makeAll front).makeAll back :=
  List.foldl_append

theorem makeAll_cons (held : Holdings) (call : UInt64 × StoreCall) (calls : List (UInt64 × StoreCall)) :
    held.makeAll (call :: calls) = (held.make call.1 call.2).makeAll calls :=
  rfl

end Holdings

theorem Batch.holdings_call (batch : Batch) (call : StoreCall) (now : UInt64) :
    (batch.call call now).2.holdings = batch.holdings.make now call := by
  cases call with
  | write write =>
    cases named : write.parents with
    | none => simp [Batch.call, Batch.write, Holdings.make, named]
    | some parents =>
      have validated : write.parents.isSome = true := by simp [named]
      simp only [Batch.call, Holdings.make, validated, if_true]
      exact (batch.write_validated write now validated).2
  | read read => rfl
  | remove removal =>
    cases named : removal.parents with
    | none => simp [Batch.call, Batch.remove, Holdings.make, named]
    | some parents =>
      have validated : removal.parents.isSome = true := by simp [named]
      simp only [Batch.call, Holdings.make, validated, if_true]
      exact (batch.remove_validated removal validated).2

theorem Batch.holdings_makes (batch : Batch) (calls : List (UInt64 × StoreCall)) :
    (batch.makes calls).holdings = batch.holdings.makeAll calls := by
  induction calls generalizing batch with
  | nil => rfl
  | cons call calls ih =>
    rw [Holdings.makeAll_cons, ← batch.holdings_call]
    exact ih _

theorem Store.holdings_commits (store : Store) (batches : List (List (UInt64 × StoreCall))) :
    (store.commits batches).holdings = store.holdings.makeAll batches.flatten := by
  induction batches generalizing store with
  | nil => rfl
  | cons calls batches ih =>
    have first : (store.openBatch.makes calls).commit.holdings = store.holdings.makeAll calls := by
      rw [Batch.holdings_commit, Batch.holdings_makes, Store.holdings_openBatch]
    rw [List.flatten_cons, Holdings.makeAll_append, ← first]
    exact ih _

theorem Store.entry_commits (id : StoreId) (batches : List (List (UInt64 × StoreCall))) :
    ((Store.fresh id).commits batches).table.entry = ((Holdings.fresh id).makeAll batches.flatten).entry := by
  rw [← Store.holdings_fresh, ← Store.holdings_commits]
  rfl

theorem Store.entry_commits_flatten (id : StoreId) (batches : List (List (UInt64 × StoreCall))) :
    ((Store.fresh id).commits batches).table.entry = ((Store.fresh id).commits [batches.flatten]).table.entry := by
  rw [Store.entry_commits, Store.entry_commits, List.flatten_singleton]

namespace Holdings

variable {held : Holdings} {calls : List (UInt64 × StoreCall)} {key : String} {version : Version}

/-- What every write and every removal of a key keeps about its entry, calls keep. -/
theorem makeAll_keeps (property : Entry → Prop)
    (written : ∀ now write version entry, (now, StoreCall.write write) ∈ calls → write.key = key →
      write.parents.isSome = true → (∀ given, write.assigned = some given → version = given) → property entry →
      property (entry.write write (write.parents.getD []) version now).2)
    (removed : ∀ now removal entry, (now, StoreCall.remove removal) ∈ calls → removal.key = key → property entry →
      property (entry.remove (removal.parents.getD [])).2)
    (before : property (held.entry key)) : property ((held.makeAll calls).entry key) := by
  induction calls generalizing held with
  | nil => exact before
  | cons first calls ih =>
    obtain ⟨now, call⟩ := first
    rw [makeAll_cons]
    apply ih
    · intro moment write version entry member
      exact written moment write version entry (List.mem_cons_of_mem _ member)
    · intro moment removal entry member
      exact removed moment removal entry (List.mem_cons_of_mem _ member)
    · cases call with
      | read _ => exact before
      | write write =>
        simp only [make]
        split
        · next validated =>
          rw [enter_entry]
          split
          · next same =>
            apply written now write _ _ List.mem_cons_self same validated _ before
            intro given assigned
            simp [stamp, assigned]
          · exact before
        · exact before
      | remove removal =>
        simp only [make]
        split
        · rw [strike_entry]
          split
          · next same => exact removed now removal _ List.mem_cons_self same before
          · exact before
        · exact before

end Holdings

theorem Entry.write_retired {entry : Entry} {write : Write} {parents : List Version} {version other : Version}
    {now : UInt64} (firm : write.optimistic = false) :
    (entry.write write parents version now).2.Retired other ↔
      entry.Retired other ∨ ¬ entry.Retired version ∧ other ∈ parents := by
  constructor
  · intro retired
    by_cases late : entry.Retired version
    · rw [write_late late] at retired
      exact Or.inl retired
    · exact (write_retires_only retired).imp_right fun named => ⟨late, named⟩
  · intro either
    rcases either with old | ⟨fresh, named⟩
    · exact write_keeps_retired old
    · exact write_retires_parents fresh firm named

namespace Holdings

variable {held : Holdings} {calls : List (UInt64 × StoreCall)} {key : String} {version : Version}

theorem make_retired {now : UInt64} {call : StoreCall} (forwarded : call.Forwarded) :
    ((held.make now call).entry key).Retired version ↔ (held.entry key).Retired version ∨
      call.Names key version ∧ ∀ late, call.Brings key late → ¬ (held.entry key).Retired late := by
  cases call with
  | read _ => cases forwarded
  | write write =>
    obtain ⟨firm, _, carries, _⟩ := forwarded
    obtain ⟨given, assigned⟩ := Option.isSome_iff_exists.mp carries
    have stamped : held.stamp write = given := by simp [stamp, assigned]
    cases named : write.parents with
    | none => simp [make, named, StoreCall.Names]
    | some parents =>
      simp only [make, named, Option.isSome_some, if_true, enter_entry, stamped, StoreCall.Names, StoreCall.Brings,
        assigned, Option.some.injEq, true_and, Option.getD_some]
      by_cases own : write.key = key
      · simp only [own, if_true, Entry.write_retired firm, true_and, forall_eq']
        exact or_congr_right and_comm
      · simp [own]
  | remove removal =>
    cases named : removal.parents with
    | none => simp [make, named, StoreCall.Names]
    | some parents =>
      simp only [make, named, Option.isSome_some, if_true, strike_entry, StoreCall.Names, StoreCall.Brings]
      by_cases own : removal.key = key
      · simp [own, Entry.remove_retired]
      · simp [own]

private theorem split_last {α : Type} {property : List α → α → Prop} {items : List α} {last : α} :
    (∃ front item back, items ++ [last] = front ++ item :: back ∧ property front item) ↔
      (∃ front item back, items = front ++ item :: back ∧ property front item) ∨ property items last := by
  constructor
  · intro split
    obtain ⟨front, item, back, same, holds⟩ := split
    rcases List.eq_nil_or_concat back with rfl | ⟨middle, final, rfl⟩
    · obtain ⟨rfl, rfl⟩ : items = front ∧ last = item := by simpa using same
      exact Or.inr holds
    · rw [List.concat_eq_append, ← List.cons_append, ← List.append_assoc] at same
      exact Or.inl ⟨front, item, middle, (List.append_inj' same rfl).1, holds⟩
  · intro either
    rcases either with ⟨front, item, back, rfl, holds⟩ | holds
    · exact ⟨front, item, back ++ [last], by simp, holds⟩
    · exact ⟨items, last, [], rfl, holds⟩

theorem makeAll_retired (id : StoreId) (forwarded : ∀ call ∈ calls, call.2.Forwarded) :
    (((fresh id).makeAll calls).entry key).Retired version ↔
      ∃ front call back, calls = front ++ call :: back ∧ call.2.Names key version ∧
        ∀ late, call.2.Brings key late → ¬ (((fresh id).makeAll front).entry key).Retired late := by
  -- from the back, as what the last call retires depends on what those before it have left
  induction calls using List.reverseRecOn with
  | nil =>
    constructor
    · intro retired
      exact absurd retired (Entry.vacant_not_retired version)
    · intro split
      obtain ⟨front, call, back, same, _⟩ := split
      simp at same
  | append_singleton calls last ih =>
    have earlier := ih fun call member => forwarded call (List.mem_append_left _ member)
    have own := forwarded last (List.mem_append_right _ List.mem_cons_self)
    rw [makeAll_append, makeAll_cons, split_last, ← earlier]
    exact make_retired own

theorem makeAll_known (forwarded : ∀ call ∈ calls, call.2.Forwarded)
    (brought : ∃ call ∈ calls, call.2.Brings key version) : ((held.makeAll calls).entry key).Knows version := by
  obtain ⟨⟨now, call⟩, member, brings⟩ := brought
  obtain ⟨front, back, rfl⟩ := List.append_of_mem member
  cases call with
  | read _ => cases brings
  | remove _ => cases brings
  | write write =>
    obtain ⟨rfl, validated, assigned⟩ := brings
    obtain ⟨firm, lasting, _⟩ := forwarded (now, .write write) member
    rw [makeAll_append, makeAll_cons]
    refine makeAll_keeps (·.Knows version) ?_ ?_ ?_
    · intro moment other stamp entry inside _ _ _ known
      apply Entry.write_keeps_known known
      intro _
      exact (forwarded (moment, .write other) (List.mem_append_right _ (List.mem_cons_of_mem _ inside))).2.1
    · exact fun _ _ _ _ _ known => Entry.remove_keeps_known known
    · have stamped : (held.makeAll front).stamp write = version := by simp [stamp, assigned]
      simp only [make, validated, if_true, enter_entry, stamped]
      exact Entry.write_makes_known firm lasting

theorem makeAll_apart (id : StoreId) (forwarded : ∀ call ∈ calls, call.2.Forwarded)
    (live : (((fresh id).makeAll calls).entry key).Live version) :
    ¬ (((fresh id).makeAll calls).entry key).Retired version := by
  refine makeAll_keeps (fun entry => ∀ version, entry.Live version → ¬ entry.Retired version) ?_ ?_ ?_ version live
  · intro now write stamp entry member _ _ carried apart
    obtain ⟨_, _, carries, foreign⟩ := forwarded (now, .write write) member
    obtain ⟨given, assigned⟩ := Option.isSome_iff_exists.mp carries
    obtain rfl := carried given assigned
    exact Entry.write_keeps_apart apart (foreign stamp assigned)
  · exact fun _ _ _ _ _ apart => Entry.remove_keeps_apart apart
  · exact fun other vacantly => absurd vacantly (Entry.vacant_not_live other)

theorem makeAll_brought (id : StoreId) (forwarded : ∀ call ∈ calls, call.2.Forwarded)
    (live : (((fresh id).makeAll calls).entry key).Live version) : ∃ call ∈ calls, call.2.Brings key version := by
  refine makeAll_keeps (fun entry => entry.Live version → ∃ call ∈ calls, call.2.Brings key version) ?_ ?_ ?_ live
  · intro now write stamp entry member same validated carried old stored
    obtain ⟨value, inside, rfl⟩ := stored
    rcases Entry.mem_write inside with kept | ⟨_, rfl⟩
    · exact old ⟨value, kept, rfl⟩
    · obtain ⟨_, _, carries, _⟩ := forwarded (now, .write write) member
      obtain ⟨given, assigned⟩ := Option.isSome_iff_exists.mp carries
      obtain rfl := carried given assigned
      exact ⟨(now, .write write), member, same, validated, assigned⟩
  · exact fun _ _ _ _ _ old present => old (Entry.remove_live.mp present).1
  · exact fun vacantly => absurd vacantly (Entry.vacant_not_live version)

theorem makeAll_live (id : StoreId) (forwarded : ∀ call ∈ calls, call.2.Forwarded) :
    (((fresh id).makeAll calls).entry key).Live version ↔
      (∃ call ∈ calls, call.2.Brings key version) ∧ ¬ (((fresh id).makeAll calls).entry key).Retired version := by
  constructor
  · intro live
    exact ⟨makeAll_brought id forwarded live, makeAll_apart id forwarded live⟩
  · intro left
    exact (makeAll_known forwarded left.1).live_or_retired.resolve_right left.2

end Holdings

/-- A version that came is superseded, but every call that names it is a copy that came when its own version
was already retired at the store, and so was dropped. -/
def Stranded (id : StoreId) (calls : List (UInt64 × StoreCall)) (key : String) (version : Version) : Prop :=
  (∃ call ∈ calls, call.2.Brings key version) ∧ (∃ call ∈ calls, call.2.Names key version) ∧
    ∀ front call back, calls = front ++ call :: back → call.2.Names key version →
      ∃ late, call.2.Brings key late ∧ (((Store.fresh id).commits [front]).table.entry key).Retired late

namespace Stranded

variable {id : StoreId} {calls : List (UInt64 × StoreCall)} {key : String} {version : Version}

/-- What is live is what came and was named by nobody, and what is stranded. -/
theorem live_iff (forwarded : ∀ call ∈ calls, call.2.Forwarded) :
    (((Store.fresh id).commits [calls]).table.entry key).Live version ↔
      (∃ call ∈ calls, call.2.Brings key version) ∧ (¬ ∃ call ∈ calls, call.2.Names key version) ∨
        Stranded id calls key version := by
  simp only [Stranded, Store.entry_commits, List.flatten_singleton]
  rw [Holdings.makeAll_live id forwarded, Holdings.makeAll_retired id forwarded]
  constructor
  · intro left
    obtain ⟨brought, unretired⟩ := left
    by_cases named : ∃ call ∈ calls, call.2.Names key version
    · refine Or.inr ⟨brought, named, ?_⟩
      intro front call back split names
      by_contra punctual
      apply unretired
      refine ⟨front, call, back, split, names, ?_⟩
      intro late brings retired
      exact punctual ⟨late, brings, retired⟩
    · exact Or.inl ⟨brought, named⟩
  · intro either
    rcases either with ⟨brought, unnamed⟩ | ⟨brought, _, dropped⟩
    · refine ⟨brought, ?_⟩
      intro retired
      obtain ⟨front, call, back, rfl, names, _⟩ := retired
      exact unnamed ⟨call, List.mem_append_right _ List.mem_cons_self, names⟩
    · refine ⟨brought, ?_⟩
      intro retired
      obtain ⟨front, call, back, split, names, punctual⟩ := retired
      obtain ⟨late, brings, before⟩ := dropped front call back split names
      exact punctual late brings before

private theorem of_live {other : StoreId} {others : List (UInt64 × StoreCall)}
    (forwarded : ∀ call ∈ others, call.2.Forwarded)
    (named : (∃ call ∈ calls, call.2.Names key version) → ∃ call ∈ others, call.2.Names key version)
    (stranded : Stranded id calls key version)
    (live : (((Store.fresh other).commits [others]).table.entry key).Live version) :
    Stranded other others key version := by
  apply ((live_iff forwarded).mp live).resolve_left
  intro unnamed
  exact unnamed.2 (named stranded.2.1)

end Stranded

private theorem exists_shared {first second : List (UInt64 × StoreCall)}
    (same : ∀ call, call ∈ first.map (·.2) ↔ call ∈ second.map (·.2)) (property : StoreCall → Prop)
    (found : ∃ call ∈ first, property call.2) : ∃ call ∈ second, property call.2 := by
  obtain ⟨call, member, holds⟩ := found
  obtain ⟨twin, listed, equal⟩ := List.mem_map.mp ((same call.2).mp (List.mem_map_of_mem member))
  exact ⟨twin, listed, equal ▸ holds⟩

/-- Two stores that get the same copies and removals, in any order and any number of times, hold the same live
versions if and only if the same versions are stranded at both. -/
theorem deliveries_agree_iff (own other : StoreId) {first second : List (List (UInt64 × StoreCall))}
    (forwarded : ∀ call ∈ first.flatten, call.2.Forwarded)
    (same : ∀ call, call ∈ first.flatten.map (·.2) ↔ call ∈ second.flatten.map (·.2)) :
    (∀ key version, (((Store.fresh own).commits first).table.entry key).Live version ↔
        (((Store.fresh other).commits second).table.entry key).Live version) ↔
      ∀ key version, Stranded own first.flatten key version ↔ Stranded other second.flatten key version := by
  have also : ∀ call ∈ second.flatten, call.2.Forwarded := by
    intro call member
    obtain ⟨twin, listed, equal⟩ := List.mem_map.mp ((same call.2).mpr (List.mem_map_of_mem member))
    exact equal ▸ forwarded twin listed
  have shared (property : StoreCall → Prop) :
      (∃ call ∈ first.flatten, property call.2) ↔ ∃ call ∈ second.flatten, property call.2 :=
    ⟨exists_shared same property, exists_shared (fun call => (same call).symm) property⟩
  have named (key : String) (version : Version) := shared (·.Names key version)
  have brought (key : String) (version : Version) := shared (·.Brings key version)
  rw [Store.entry_commits_flatten own, Store.entry_commits_flatten other]
  constructor
  · intro agree key version
    constructor
    · intro stranded
      apply stranded.of_live also (named key version).mp
      exact (agree key version).mp ((Stranded.live_iff forwarded).mpr (Or.inr stranded))
    · intro stranded
      apply stranded.of_live forwarded (named key version).mpr
      exact (agree key version).mpr ((Stranded.live_iff also).mpr (Or.inr stranded))
  · intro agree key version
    rw [Stranded.live_iff forwarded, Stranded.live_iff also, brought, named, agree]

/-- A copy of an empty value, numbered by its writer, in place of other copies. -/
private def chained (number : UInt64) (parents : List UInt64) : UInt64 × StoreCall :=
  (0, .write
    { key := "k", data := [], parents := some (parents.map fun number => { store := ⟨0⟩, number }), expiresAt := none
      optimistic := false, assigned := some { store := ⟨0⟩, number } })

def upward : List (List (UInt64 × StoreCall)) :=
  [[chained 1 []], [chained 2 [1]], [chained 3 [2]]]

def downward : List (List (UInt64 × StoreCall)) :=
  upward.reverse

private theorem mem_downward (call : StoreCall) :
    call ∈ upward.flatten.map (·.2) ↔ call ∈ downward.flatten.map (·.2) := by
  simp only [downward, List.mem_map, List.mem_flatten, List.mem_reverse]

/-- In order the last write alone is left. The other way round the first one is left too, as the second was
dropped before it could retire it. -/
theorem downward_diverges :
    (∀ call ∈ upward.flatten, call.2.Forwarded) ∧
      (∀ call ∈ upward.flatten, ∀ other ∈ upward.flatten,
        call.2.given.isSome = true → call.2.given = other.2.given → call.2 = other.2) ∧
      (∀ call, call ∈ upward.flatten.map (·.2) ↔ call ∈ downward.flatten.map (·.2)) ∧
      ¬ ∀ key version, (((Store.fresh ⟨0⟩).commits upward).table.entry key).Live version ↔
        (((Store.fresh ⟨0⟩).commits downward).table.entry key).Live version := by
  refine ⟨by decide, by decide, mem_downward, ?_⟩
  intro agree
  have left : (((Store.fresh ⟨0⟩).commits downward).table.entry "k").Live { store := ⟨0⟩, number := 1 } := by
    decide +kernel
  have gone : ¬ (((Store.fresh ⟨0⟩).commits upward).table.entry "k").Live { store := ⟨0⟩, number := 1 } := by
    decide +kernel
  exact gone ((agree _ _).mpr left)

/-- The first write is stranded the one way and not the other. -/
theorem downward_agrees_iff :
    (∀ key version, (((Store.fresh ⟨0⟩).commits upward).table.entry key).Live version ↔
        (((Store.fresh ⟨0⟩).commits downward).table.entry key).Live version) ↔
      ∀ key version, Stranded ⟨0⟩ upward.flatten key version ↔ Stranded ⟨0⟩ downward.flatten key version :=
  deliveries_agree_iff ⟨0⟩ ⟨0⟩ (by decide) mem_downward

end ReplicaRing
