import Mathlib.Data.List.Nodup
import ReplicaRing.Proofs.Grouping

/-! A batch can be split with a table that says for each shard where its portion is, and no place is ever looked up that
the table or the list of portions does not have. The split is a partition: the portions belong to different shards, have
each position of the batch once, and stand in the order in which the batch comes to them. -/

namespace ReplicaRing

/-- The portions of a batch so far, and for each shard the place of its portion among them. -/
structure Register (count : Nat) where
  slots : List (Option Nat)
  portions : List (Portion count)

namespace Register

variable {count : Nat}

def blank (count : Nat) : Register count where
  slots := List.replicate count none
  portions := []

/-- The place of a shard's portion, as the table knows it. If it knows none, an empty portion is opened behind the
others. -/
def openFor (register : Register count) (shard : Fin count) : Option Nat → Register count × Nat
  | some slot => (register, slot)
  | none =>
    ({ slots := register.slots.set shard.val (some register.portions.length),
       portions := register.portions ++ [{ shard, positions := [] }] }, register.portions.length)

def append? (register : Register count) (slot position : Nat) : Option (Register count) := do
  let portion ← register.portions[slot]?
  return { register with
    portions := register.portions.set slot { portion with positions := portion.positions ++ [position] } }

/-- Puts a position into the portion of its shard. The table must reach as far as the shard. -/
def file? (register : Register count) (shard : Fin count) (position : Nat) : Option (Register count) := do
  let known ← register.slots[shard.val]?
  let (opened, slot) := register.openFor shard known
  opened.append? slot position

def fileAll? : Register count → Nat → List (Fin count) → Option (Register count)
  | register, _, [] => some register
  | register, position, shard :: rest => do fileAll? (← register.file? shard position) (position + 1) rest

end Register

namespace Partitioner

/-- The portions of a batch by way of a table. -/
def filed? (partitioner : Partitioner) (count : Nat) (positive : 0 < count) (keys : List String) :
    Option (List (Portion count)) :=
  ((Register.blank count).fileAll? 0
    (keys.map fun key => partitioner.shard (Utf8.ofString key) count positive)).map (·.portions)

/-- What it is to split a batch of keys among shards. -/
structure Splits (partitioner : Partitioner) (keys : List String) {count : Nat} (portions : List (Portion count)) :
    Prop where
  distinct : (portions.map (·.shard)).Nodup
  populated : ∀ portion ∈ portions, portion.positions ≠ []
  complete : (portions.flatMap (·.positions)).Perm (List.range keys.length)
  ascending : ∀ portion ∈ portions, portion.positions.Pairwise (· < ·)
  owned : ∀ portion ∈ portions, ∀ position ∈ portion.positions, ∃ key, keys[position]? = some key ∧
    portion.shard.val = (partitioner.hash (Utf8.ofString key)).toNat % count
  ordered : portions.Pairwise fun earlier later =>
    ∃ first, earlier.positions.head? = some first ∧ ∀ position ∈ later.positions, first < position

end Partitioner

namespace Portion

variable {count slot position : Nat} {shard : Fin count} {portions : List (Portion count)}

private theorem place_at {portion : Portion count} (found : portions[slot]? = some portion) (own : portion.shard = shard)
    (first : ∀ earlier < slot, portions[earlier]?.map (·.shard) ≠ some shard) :
    place shard position portions =
      portions.set slot { portion with positions := portion.positions ++ [position] } := by
  induction portions generalizing slot with
  | nil => cases found
  | cons head rest ih =>
    cases slot with
    | zero =>
      obtain rfl : head = portion := Option.some.inj found
      rw [place, if_pos own, List.set_cons_zero]
    | succ slot =>
      have other : head.shard ≠ shard := fun same => first 0 (Nat.succ_pos _) (congrArg some same)
      rw [place, if_neg other, List.set_cons_succ]
      rw [ih found fun earlier before => first (earlier + 1) (Nat.succ_lt_succ before)]

private theorem place_unknown (unknown : ∀ portion ∈ portions, portion.shard ≠ shard) :
    place shard position portions = portions ++ [{ shard, positions := [position] }] := by
  induction portions with
  | nil => rfl
  | cons head rest ih =>
    rw [place, if_neg (unknown head List.mem_cons_self), ih fun portion member =>
      unknown portion (List.mem_cons_of_mem _ member), List.cons_append]

end Portion

namespace Register

variable {count : Nat} {register : Register count} {shard : Fin count}

/-- The table has a place for each shard, and leads to the portions of the shards that have one. -/
structure Indexed (register : Register count) : Prop where
  sized : register.slots.length = count
  leads : ∀ (shard : Fin count) (slot : Nat),
    register.slots[shard.val]? = some (some slot) ↔ register.portions[slot]?.map (·.shard) = some shard

theorem blank_indexed (count : Nat) : (blank count).Indexed where
  sized := List.length_replicate
  leads shard slot := by simp [blank]

namespace Indexed

theorem slot_unique (indexed : register.Indexed) {slot other : Nat}
    (found : register.portions[slot]?.map (·.shard) = some shard)
    (also : register.portions[other]?.map (·.shard) = some shard) : slot = other := by
  have same := ((indexed.leads shard slot).mpr found).symm.trans ((indexed.leads shard other).mpr also)
  exact Option.some.inj (Option.some.inj same)

theorem append (indexed : register.Indexed) {slot : Nat} {portion : Portion count} (position : Nat)
    (found : register.portions[slot]? = some portion) :
    Indexed { register with
      portions := register.portions.set slot { portion with positions := portion.positions ++ [position] } } where
  sized := indexed.sized
  leads shard other := by
    rw [indexed.leads shard other, List.getElem?_set]
    split
    · next same =>
      subst same
      rw [found, if_pos (List.getElem?_eq_some_iff.mp found).1]
      rfl
    · rfl

theorem opened (indexed : register.Indexed) (unknown : register.slots[shard.val]? = some none) :
    (register.openFor shard none).1.Indexed where
  sized := by rw [openFor, List.length_set, indexed.sized]
  leads other slot := by
    have inside : shard.val < register.slots.length := (List.getElem?_eq_some_iff.mp unknown).1
    simp only [openFor]
    by_cases own : shard = other
    · subst own
      -- the shard had no portion, so the new one is its only one
      have absent : register.portions[slot]?.map (·.shard) ≠ some shard := by
        intro there
        cases unknown.symm.trans ((indexed.leads shard slot).mpr there)
      rw [List.getElem?_set_self inside, Option.some.injEq, Option.some.injEq]
      constructor
      · rintro rfl
        rw [List.getElem?_concat_length]
        rfl
      · intro there
        by_contra apart
        apply absent
        obtain ⟨portion, placed, same⟩ := Option.map_eq_some_iff.mp there
        have bound := (List.getElem?_eq_some_iff.mp placed).1
        rw [List.length_append, List.length_singleton] at bound
        rw [List.getElem?_append_left (by omega)] at placed
        rw [placed, Option.map_some, same]
    · have elsewhere : shard.val ≠ other.val := fun same => own (Fin.ext same)
      rw [List.getElem?_set_ne elsewhere, indexed.leads other slot]
      by_cases earlier : slot < register.portions.length
      · rw [List.getElem?_append_left earlier]
      · rw [List.getElem?_eq_none (Nat.not_lt.mp earlier), List.getElem?_append_right (Nat.not_lt.mp earlier),
          List.getElem?_singleton]
        split
        · simp [own]
        · rfl

/-- One key. No place is missing, and the portions are those that a search through the list would make. -/
theorem file (indexed : register.Indexed) (shard : Fin count) (position : Nat) :
    ∃ next, register.file? shard position = some next ∧ next.Indexed ∧
      next.portions = Portion.place shard position register.portions := by
  obtain ⟨known, looked⟩ : ∃ known, register.slots[shard.val]? = some known :=
    ⟨_, List.getElem?_eq_getElem (by rw [indexed.sized]; exact shard.isLt)⟩
  cases known with
  | some slot =>
    have there := (indexed.leads shard slot).mp looked
    obtain ⟨portion, found, own⟩ := Option.map_eq_some_iff.mp there
    have first : ∀ earlier < slot, register.portions[earlier]?.map (·.shard) ≠ some shard :=
      fun earlier before also => Nat.ne_of_lt before (indexed.slot_unique also there)
    refine ⟨_, ?_, indexed.append position found, (Portion.place_at found own first).symm⟩
    simp only [file?, looked, openFor, append?, found, Option.bind_eq_bind, Option.bind_some, Option.pure_def]
  | none =>
    have unknown : ∀ portion ∈ register.portions, portion.shard ≠ shard := by
      intro portion member own
      obtain ⟨slot, found⟩ := List.mem_iff_getElem?.mp member
      have there := (indexed.leads shard slot).mpr (by rw [found, Option.map_some, own])
      cases looked.symm.trans there
    have fresh : (register.openFor shard none).1.portions[register.portions.length]? =
        some { shard, positions := [] } := List.getElem?_concat_length
    refine ⟨_, ?_, (indexed.opened looked).append position fresh, ?_⟩
    · simp only [file?, looked, Option.bind_eq_bind, Option.bind_some]
      rw [append?, show (register.openFor shard none).2 = register.portions.length from rfl, fresh]
      rfl
    · rw [Portion.place_unknown unknown]
      simp [openFor]

theorem fileAll (indexed : register.Indexed) (position : Nat) (shards : List (Fin count)) :
    ∃ final, register.fileAll? position shards = some final ∧ final.Indexed ∧
      final.portions = Portion.placeAll register.portions position shards := by
  induction shards generalizing register position with
  | nil => exact ⟨register, rfl, indexed, rfl⟩
  | cons shard rest ih =>
    obtain ⟨next, filed, still, placed⟩ := indexed.file shard position
    obtain ⟨final, reached, last, portions⟩ := ih still (position + 1)
    refine ⟨final, ?_, last, ?_⟩
    · rw [fileAll?, filed]
      exact reached
    · rw [portions, placed, Portion.placeAll]

end Indexed
end Register

namespace Portion

variable {count : Nat} (shards : List (Fin count))

private theorem places_ascend (shard : Fin count) : (places shard shards).Pairwise (· < ·) :=
  List.pairwise_lt_range.filter _

private theorem places_apart {shard other : Fin count} (different : shard ≠ other) :
    (places shard shards).Disjoint (places other shards) := by
  intro position own also
  exact different (Option.some.inj ((mem_places.mp own).symm.trans (mem_places.mp also)))

private theorem places_ne_nil {shard : Fin count} (named : shard ∈ shards) : places shard shards ≠ [] := by
  obtain ⟨position, found⟩ := List.mem_iff_getElem?.mp named
  exact List.ne_nil_of_mem (mem_places.mpr found)

theorem grouped_shards : (grouped shards).map (·.shard) = shards.eraseDups := by
  rw [grouped, List.map_map]
  exact List.map_id _

theorem grouped_complete : ((grouped shards).flatMap (·.positions)).Perm (List.range shards.length) := by
  have once : ((grouped shards).flatMap (·.positions)).Nodup := by
    rw [grouped, List.flatMap_map, List.nodup_flatMap]
    refine ⟨fun shard _ => (places_ascend shards shard).imp Nat.ne_of_lt, ?_⟩
    exact (nodup_eraseDups shards).imp fun different => places_apart shards different
  refine (List.perm_ext_iff_of_nodup once List.nodup_range).mpr fun position => ?_
  rw [grouped, List.flatMap_map, List.mem_flatMap, List.mem_range]
  constructor
  · rintro ⟨shard, _, placed⟩
    exact (List.getElem?_eq_some_iff.mp (mem_places.mp placed)).1
  · intro inside
    have found := List.getElem?_eq_getElem inside
    exact ⟨shards[position], List.mem_eraseDups.mpr (List.getElem_mem inside), mem_places.mpr found⟩

variable {shards}

private theorem first_inside {shard : Fin count} {first : Nat} (found : (places shard shards).head? = some first) :
    first < shards.length :=
  (List.getElem?_eq_some_iff.mp (mem_places.mp (List.mem_of_mem_head? found))).1

private theorem first_concat {shard : Fin count} {first : Nat} (last : Fin count)
    (found : (places shard shards).head? = some first) : (places shard (shards ++ [last])).head? = some first := by
  rw [places_concat, List.head?_append, found]
  rfl

def Precedes (shards : List (Fin count)) (earlier later : Fin count) : Prop :=
  ∃ first, (places earlier shards).head? = some first ∧ ∀ position ∈ places later shards, first < position

private theorem Precedes.concat {earlier later : Fin count} (precedes : Precedes shards earlier later) (last : Fin count) :
    Precedes (shards ++ [last]) earlier later := by
  obtain ⟨first, found, before⟩ := precedes
  refine ⟨first, first_concat last found, fun position placed => ?_⟩
  rw [places_concat, List.mem_append] at placed
  rcases placed with old | new
  · exact before position old
  · split at new
    · rw [List.mem_singleton.mp new]
      exact first_inside found
    · cases new

private theorem precedes_new {earlier last : Fin count} (named : earlier ∈ shards) (new : last ∉ shards) :
    Precedes (shards ++ [last]) earlier last := by
  obtain ⟨first, found⟩ := Option.ne_none_iff_exists'.mp (mt List.head?_eq_none_iff.mp (places_ne_nil shards named))
  refine ⟨first, first_concat last found, fun position placed => ?_⟩
  have place := mem_places.mp placed
  by_cases old : position < shards.length
  · rw [List.getElem?_append_left old] at place
    exact absurd (List.mem_of_getElem? place) new
  · exact Nat.lt_of_lt_of_le (first_inside found) (Nat.not_lt.mp old)

variable (shards)

/-- By induction from the right. A new last shard comes behind all first places, and a known one changes none. -/
theorem eraseDups_precedes : shards.eraseDups.Pairwise (Precedes shards) := by
  induction shards using List.reverseRecOn with
  | nil => exact List.Pairwise.nil
  | append_singleton shards last ih =>
    have kept : shards.eraseDups.Pairwise (Precedes (shards ++ [last])) := ih.imp fun precedes => precedes.concat last
    by_cases known : last ∈ shards
    · rwa [eraseDups_known known]
    · rw [eraseDups_new known, List.pairwise_append]
      refine ⟨kept, List.pairwise_singleton _ _, ?_⟩
      intro earlier member later single
      rw [List.mem_singleton.mp single]
      exact precedes_new (List.mem_eraseDups.mp member) known

end Portion

namespace Partitioner

theorem portions_split (partitioner : Partitioner) (count : Nat) (positive : 0 < count) (keys : List String) :
    partitioner.Splits keys (partitioner.portions count positive keys) := by
  rw [portions, Portion.placeAll_eq_grouped]
  generalize owners : (keys.map fun key => partitioner.shard (Utf8.ofString key) count positive) = shards
  have long : shards.length = keys.length := by rw [← owners, List.length_map]
  refine ⟨?_, ?_, ?_, ?_, ?_, ?_⟩
  · rw [Portion.grouped_shards]
    exact Portion.nodup_eraseDups shards
  · intro portion member
    obtain ⟨shard, named, rfl⟩ := List.mem_map.mp member
    exact Portion.places_ne_nil shards (List.mem_eraseDups.mp named)
  · rw [← long]
    exact Portion.grouped_complete shards
  · intro portion member
    obtain ⟨shard, _, rfl⟩ := List.mem_map.mp member
    exact Portion.places_ascend shards shard
  · intro portion member position placed
    obtain ⟨shard, _, rfl⟩ := List.mem_map.mp member
    have place := Portion.mem_places.mp placed
    rw [← owners, List.getElem?_map, Option.map_eq_some_iff] at place
    obtain ⟨key, found, owner⟩ := place
    exact ⟨key, found, congrArg Fin.val owner.symm⟩
  · rw [Portion.grouped, List.pairwise_map]
    exact Portion.eraseDups_precedes shards

theorem filed?_eq (partitioner : Partitioner) (count : Nat) (positive : 0 < count) (keys : List String) :
    partitioner.filed? count positive keys = some (partitioner.portions count positive keys) := by
  obtain ⟨final, filed, _, portions⟩ := (Register.blank_indexed count).fileAll 0
    (keys.map fun key => partitioner.shard (Utf8.ofString key) count positive)
  rw [filed?, filed, Option.map_some, portions]
  rfl

/-- A batch is split among any positive number of shards without a look at a place that is not there, and what comes of
it is a partition of the batch. -/
theorem batch_partitioned (partitioner : Partitioner) (count : Nat) (positive : 0 < count) (keys : List String) :
    ∃ portions, partitioner.filed? count positive keys = some portions ∧
      partitioner.portions? count keys = some portions ∧ partitioner.Splits keys portions := by
  refine ⟨_, partitioner.filed?_eq count positive keys, ?_, partitioner.portions_split count positive keys⟩
  rw [portions?, dif_pos positive]

/-- Six keys, one of them twice, among four shards of which one gets nothing. -/
theorem repeated_key_partitioned :
    0 < 4 ∧ ∃ portions, sip13.filed? 4 (by decide) ["k0", "k1", "k2", "k3", "k4", "k0"] = some portions ∧
      portions.map (fun portion => (portion.shard.val, portion.positions)) = [(2, [0, 5]), (0, [1, 2, 3]), (3, [4])] ∧
      sip13.Splits ["k0", "k1", "k2", "k3", "k4", "k0"] portions := by
  obtain ⟨portions, filed, split, parted⟩ :=
    batch_partitioned sip13 4 (by decide) ["k0", "k1", "k2", "k3", "k4", "k0"]
  refine ⟨by decide, portions, filed, ?_, parted⟩
  have shown : (sip13.portions? 4 ["k0", "k1", "k2", "k3", "k4", "k0"]).map
      (List.map fun portion => (portion.shard.val, portion.positions)) =
        some [(2, [0, 5]), (0, [1, 2, 3]), (3, [4])] := by decide +kernel
  rw [split] at shown
  exact Option.some.inj shown

end Partitioner
end ReplicaRing
