import Mathlib.Data.Nat.ModEq
import ReplicaRing.Proofs.Building

/-! The usual ring, for any number of machines. Its references resolve whatever the machines are called, as long as they
can be told apart, and lead once around: each machine keeps copies for as many shards as there are copies of its own. -/

namespace ReplicaRing

/-- The positions from one on, around the end, as far as copies of a shard go. -/
def around (count start : Nat) : List Nat :=
  (List.range (min count 3)).map fun step => (start + step) % count

section Around

variable {count start position step : Nat}

/-- A lone machine has no copies, two machines have one copy each, and in all larger rings there are two. -/
theorem around_eq (inside : start < count) : around count start =
    start :: ((if 2 ≤ count then [(start + 1) % count] else []) ++
      if 3 ≤ count then [(start + 2) % count] else []) := by
  have here : start % count = start := Nat.mod_eq_of_lt inside
  by_cases three : 3 ≤ count
  · have two : 2 ≤ count := Nat.le_of_succ_le three
    simp [around, List.range_succ, two, three, here]
  · by_cases two : 2 ≤ count
    · obtain rfl : count = 2 := by omega
      simp [around, List.range_succ, here]
    · obtain rfl : count = 1 := by omega
      simp [around, here]

private theorem step_back (inside : start < count) (few : step < count) :
    (start + step) % count = position → (position + (count - step)) % count = start := by
  rintro rfl
  calc ((start + step) % count + (count - step)) % count
      = (start + step + (count - step)) % count := Nat.mod_add_mod ..
    _ = (start + count) % count := by rw [Nat.add_assoc, Nat.add_sub_cancel' (Nat.le_of_lt few)]
    _ = start := by rw [Nat.add_mod_right, Nat.mod_eq_of_lt inside]

private theorem step_on (inside : position < count) (few : step < count) :
    (position + (count - step)) % count = start → (start + step) % count = position := by
  rintro rfl
  calc ((position + (count - step)) % count + step) % count
      = (position + (count - step) + step) % count := Nat.mod_add_mod ..
    _ = (position + count) % count := by rw [Nat.add_assoc, Nat.sub_add_cancel (Nat.le_of_lt few)]
    _ = position := by rw [Nat.add_mod_right, Nat.mod_eq_of_lt inside]

private theorem step_inj {other : Nat} (few : step < count) (also : other < count)
    (same : (start + step) % count = (start + other) % count) : step = other := by
  have equal : step ≡ other [MOD count] := Nat.ModEq.add_left_cancel' start same
  rwa [Nat.ModEq, Nat.mod_eq_of_lt few, Nat.mod_eq_of_lt also] at equal

theorem countP_around (inside : position < count) :
    (List.range count).countP (fun start => (around count start).contains position) = min count 3 := by
  have few {step : Nat} (near : step < min count 3) : step < count := Nat.lt_of_lt_of_le near (Nat.min_le_left ..)
  -- The starts from which a position is met are the positions met from it when going the other way.
  let before := (List.range (min count 3)).map fun step => (position + (count - step)) % count
  have distinct : before.Nodup := by
    refine (List.nodup_range).map_on ?_
    intro step near other also same
    rw [List.mem_range] at near also
    have from_here := step_on inside (few near) rfl
    rw [same] at from_here
    exact step_inj (few near) (few also) (from_here.trans (step_on inside (few also) rfl).symm)
  have met : ((List.range count).filter fun start => (around count start).contains position).Perm before := by
    refine (List.perm_ext_iff_of_nodup (List.nodup_range.filter _) distinct).mpr fun start => ?_
    simp only [List.mem_filter, List.mem_range, List.contains_iff_mem, around, List.mem_map, before]
    constructor
    · rintro ⟨inner, step, near, reached⟩
      exact ⟨step, near, step_back inner (few near) reached⟩
    · rintro ⟨step, near, rfl⟩
      exact ⟨Nat.mod_lt _ (Nat.zero_lt_of_lt inside), step, near, step_on inside (few near) rfl⟩
  rw [List.countP_eq_length_filter, met.length_eq, List.length_map, List.length_range]

end Around

namespace Descriptor

/-- The names of the machines with a copy of the shard, its owner's first. -/
def keepers (descriptor : Descriptor) : List String :=
  descriptor.name :: descriptor.references

theorem Describes.holders {all : List Descriptor} {descriptor : Descriptor} {node : Node}
    (described : descriptor.Describes all node) (member : descriptor ∈ all)
    (only : ∀ other ∈ all, other.name = descriptor.name → other = descriptor) :
    List.Forall₂ (fun name address => Leads all (some name) (some address)) descriptor.keepers node.holders := by
  have replica {reference : Option String} {place : Option Address} (leads : Leads all reference place) :
      List.Forall₂ (fun name address => Leads all (some name) (some address)) reference.toList place.toList := by
    cases leads with
    | nowhere => exact .nil
    | named member only => exact .cons (.named member only) .nil
  rw [Node.holders, described.primary]
  exact .cons (.named member only) (List.rel_append (replica described.secondary) (replica described.tertiary))

end Descriptor

namespace Config

/-- Whether the machine at a position keeps a copy of the shard at another one: it owns the shard, or the shard's
descriptor refers to it. -/
def serves (config : Config) (position shard : Nat) : Bool :=
  config.nodes[position]?.any fun machine =>
    config.nodes[shard]?.any fun descriptor => descriptor.keepers.contains machine.name

section Ring

variable {machines : List (String × Address)} {shard position : Nat}

theorem ring_names (machines : List (String × Address)) : (ring machines).nodes.map (·.name) = machines.map (·.1) :=
  List.ext_getElem (by simp [ring]) (by simp [ring])

theorem ring_addresses (machines : List (String × Address)) :
    (ring machines).nodes.map (·.address) = machines.map (·.2) :=
  List.ext_getElem (by simp [ring]) (by simp [ring])

theorem ring_name (machines : List (String × Address)) (shard : Nat) :
    (ring machines).nodes[shard]?.map (·.name) = machines[shard]?.map (·.1) := by
  rw [← List.getElem?_map, ring_names, List.getElem?_map]

theorem ring_address (machines : List (String × Address)) (shard : Nat) :
    (ring machines).nodes[shard]?.map (·.address) = machines[shard]?.map (·.2) := by
  rw [← List.getElem?_map, ring_addresses, List.getElem?_map]

theorem ring_keepers {descriptor : Descriptor} (found : (ring machines).nodes[shard]? = some descriptor) :
    descriptor.keepers.map some = (around machines.length shard).map fun position => machines[position]?.map (·.1) := by
  simp only [ring, List.getElem?_mapIdx, Option.map_eq_some_iff] at found
  obtain ⟨machine, own, rfl⟩ := found
  have inside := (List.getElem?_eq_some_iff.mp own).1
  have replica (least step : Nat) :
      (if least ≤ machines.length then machines[(shard + step) % machines.length]?.map (·.1)
        else none).toList.map some =
        (if least ≤ machines.length then [(shard + step) % machines.length] else []).map
          fun position => machines[position]?.map (·.1) := by
    have present := List.getElem?_eq_getElem (Nat.mod_lt (shard + step) (Nat.zero_lt_of_lt inside))
    split
    · simp [present]
    · rfl
  simp only [Descriptor.keepers, Descriptor.references, around_eq inside, List.map_cons, List.map_append, replica, own,
    Option.map_some]

theorem ring_resolves {descriptor : Descriptor} (member : descriptor ∈ (ring machines).nodes) :
    descriptor.Resolves (ring machines).nodes := by
  obtain ⟨shard, found⟩ := List.mem_iff_getElem?.mp member
  intro reference refers
  have kept : some reference ∈ descriptor.keepers.map some := List.mem_map_of_mem (List.mem_cons_of_mem _ refers)
  rw [ring_keepers found] at kept
  obtain ⟨position, _, same⟩ := List.mem_map.mp kept
  obtain ⟨machine, listed, rfl⟩ := Option.map_eq_some_iff.mp same
  rw [ring_names]
  exact List.mem_map_of_mem (List.mem_of_getElem? listed)

theorem ring_wellFormed : (ring machines).WellFormed ↔
    machines ≠ [] ∧ (∀ machine ∈ machines, Text.isBlank machine.1 = false) ∧ (machines.map (·.1)).Nodup := by
  have visible : (∀ descriptor ∈ (ring machines).nodes, Text.isBlank descriptor.name = false) ↔
      ∀ machine ∈ machines, Text.isBlank machine.1 = false := by
    have names : (∀ name ∈ (ring machines).nodes.map (·.name), Text.isBlank name = false) ↔
        ∀ name ∈ machines.map (·.1), Text.isBlank name = false := by rw [ring_names]
    simpa only [List.forall_mem_map] using names
  have populated : (ring machines).nodes ≠ [] ↔ machines ≠ [] := by simp [ring]
  constructor
  · rintro ⟨somebody, named, _⟩
    exact ⟨populated.mp somebody, visible.mp named.visible, ring_names machines ▸ named.distinct⟩
  · rintro ⟨somebody, named, distinct⟩
    exact ⟨populated.mpr somebody, ⟨visible.mpr named, (ring_names machines).symm ▸ distinct⟩, fun _ => ring_resolves⟩

theorem position_unique {β : Type} {place : String × Address → β} (distinct : (machines.map place).Nodup) {value : β}
    (first : machines[position]?.map place = some value) (second : machines[shard]?.map place = some value) :
    position = shard := by
  rw [← List.getElem?_map] at first second
  exact (List.getElem?_inj (List.getElem?_eq_some_iff.mp first).1 distinct).mp (first.trans second.symm)

theorem ring_leads (distinct : (machines.map (·.1)).Nodup) {name : String} {address : Address}
    (leads : Descriptor.Leads (ring machines).nodes (some name) (some address))
    (here : some name = machines[position]?.map (·.1)) : some address = machines[position]?.map (·.2) := by
  cases leads with
  | @named descriptor member _ =>
    obtain ⟨index, found⟩ := List.mem_iff_getElem?.mp member
    have own := ring_name machines index
    have place := ring_address machines index
    rw [found] at own place
    rw [position_unique distinct here.symm own.symm]
    exact place

theorem ring_serves (distinct : (machines.map (·.1)).Nodup) (inside : position < machines.length)
    (also : shard < machines.length) :
    (ring machines).serves position shard = (around machines.length shard).contains position := by
  have length : (ring machines).nodes.length = machines.length := by simp [ring]
  obtain ⟨machine, found⟩ : ∃ machine, (ring machines).nodes[position]? = some machine :=
    ⟨_, List.getElem?_eq_getElem (length.symm ▸ inside)⟩
  obtain ⟨descriptor, owned⟩ : ∃ descriptor, (ring machines).nodes[shard]? = some descriptor :=
    ⟨_, List.getElem?_eq_getElem (length.symm ▸ also)⟩
  have own := ring_name machines position
  rw [found, Option.map_some] at own
  have named : machine.name ∈ descriptor.keepers ↔ position ∈ around machines.length shard := by
    rw [← List.mem_map_of_injective (Option.some_injective _), ring_keepers owned, List.mem_map]
    constructor
    · rintro ⟨other, kept, same⟩
      exact position_unique distinct own.symm same ▸ kept
    · intro kept
      exact ⟨position, kept, own.symm⟩
  rw [Bool.eq_iff_iff, List.contains_iff_mem, ← named]
  simp [serves, found, owned]

private theorem looked_up {α β ι : Type} {relation : α → β → Prop} {items : List α} {others : List β} {places : List ι}
    {first : ι → Option α} {second : ι → Option β} (paired : List.Forall₂ relation items others)
    (found : items.map some = places.map first)
    (along : ∀ item other place, relation item other → some item = first place → some other = second place) :
    others.map some = places.map second := by
  induction paired generalizing places with
  | nil =>
    rw [List.map_nil, List.nil_eq, List.map_eq_nil_iff] at found
    rw [found, List.map_nil, List.map_nil]
  | cons related _ ih =>
    cases places with
    | nil => cases found
    | cons place places =>
      rw [List.map_cons, List.map_cons, List.cons.injEq] at found
      rw [List.map_cons, List.map_cons, along _ _ place related found.1, ih found.2]

theorem ring_holders (distinct : (machines.map (·.1)).Nodup) {topology : Topology}
    (built : Topology.build (ring machines) = .ok topology) {node : Node} (owned : topology.nodes[shard]? = some node) :
    node.holders.map some = (around machines.length shard).map fun position => machines[position]?.map (·.2) := by
  have paired := Topology.build_described built
  obtain ⟨inside, rfl⟩ := List.getElem?_eq_some_iff.mp owned
  have listed := paired.length_eq ▸ inside
  have described := paired.get listed inside
  have names := (ring_names machines).symm ▸ distinct
  have followed := described.holders (List.get_mem _ _) fun other member same =>
    List.inj_on_of_nodup_map names member (List.get_mem _ _) same
  exact looked_up followed (ring_keepers (List.getElem?_eq_getElem listed)) fun _ _ _ => ring_leads distinct

theorem ring_holds (distinct : (machines.map (·.1)).Nodup) (apart : (machines.map (·.2)).Nodup) {topology : Topology}
    (built : Topology.build (ring machines) = .ok topology) {node : Node} (owned : topology.nodes[shard]? = some node)
    {address : Address} (found : machines[position]?.map (·.2) = some address) :
    address ∈ node.holders ↔ position ∈ around machines.length shard := by
  rw [← List.mem_map_of_injective (Option.some_injective _), ring_holders distinct built owned, List.mem_map]
  constructor
  · rintro ⟨other, kept, same⟩
    exact position_unique apart found same ▸ kept
  · intro kept
    exact ⟨position, kept, found⟩

end Ring
end Config

private theorem countP_positions {α : Type} (items : List α) (wanted : α → Bool) :
    items.countP wanted = (List.range items.length).countP fun position => items[position]?.any wanted := by
  have listed : items.map some = (List.range items.length).map fun position => items[position]? :=
    List.ext_getElem (by simp) (by simp)
  calc items.countP wanted
      = (items.map some).countP (Option.any wanted) := by rw [List.countP_map]; rfl
    _ = _ := by rw [listed, List.countP_map]; rfl

/-- The usual ring can be built if there is a machine at all and all can be told apart by name, whatever their
addresses are. Each machine then owns a shard, whose copies are on the next two machines, around the end, or on as many
as there are; and each machine keeps copies for as many shards as a shard has copies. If addresses differ, the shards
that were built show it. -/
theorem Topology.ring_goes_around (machines : List (String × Address)) :
    ((∃ topology, build (.ring machines) = .ok topology) ↔
      machines ≠ [] ∧ (∀ machine ∈ machines, Text.isBlank machine.1 = false) ∧ (machines.map (·.1)).Nodup) ∧
    ∀ topology, build (.ring machines) = .ok topology →
      topology.nodes.map (·.primary) = machines.map (·.2) ∧
      (∀ shard node, topology.nodes[shard]? = some node → node.holders.map some =
        (List.range (min machines.length 3)).map fun step =>
          topology.nodes[(shard + step) % machines.length]?.map (·.primary)) ∧
      (∀ position < machines.length,
        (List.range machines.length).countP ((Config.ring machines).serves position) = min machines.length 3) ∧
      ((machines.map (·.2)).Nodup → ∀ machine ∈ machines,
        topology.nodes.countP (·.holders.contains machine.2) = min machines.length 3) := by
  refine ⟨build_ok_iff.trans Config.ring_wellFormed, ?_⟩
  intro topology built
  have distinct := (Config.ring_wellFormed.mp (build_ok_iff.mp ⟨topology, built⟩)).2.2
  have primaries := (build_primaries built).trans (Config.ring_addresses machines)
  refine ⟨primaries, ?_, ?_, ?_⟩
  · intro shard node owned
    have place (position : Nat) : topology.nodes[position]?.map (·.primary) = machines[position]?.map (·.2) := by
      rw [← List.getElem?_map, primaries, List.getElem?_map]
    simp only [place]
    rw [Config.ring_holders distinct built owned, around, List.map_map]
    rfl
  · intro position inside
    rw [← countP_around inside]
    refine List.countP_congr fun shard also => ?_
    rw [Config.ring_serves distinct inside (List.mem_range.mp also)]
  · intro apart machine member
    obtain ⟨position, inside, rfl⟩ := List.getElem_of_mem member
    have long : topology.nodes.length = machines.length := by simpa using congrArg List.length primaries
    rw [countP_positions, long, ← countP_around inside]
    refine List.countP_congr fun shard also => ?_
    obtain ⟨node, owned⟩ : ∃ node, topology.nodes[shard]? = some node :=
      ⟨_, List.getElem?_eq_getElem (long.symm ▸ List.mem_range.mp also)⟩
    have found : machines[position]?.map (·.2) = some machines[position].2 := by simp [inside]
    rw [owned, Option.any_some, List.contains_iff_mem, List.contains_iff_mem,
      Config.ring_holds distinct apart built owned found]

/-- Five machines, of which two cannot be told apart by their addresses. -/
private def lookalikes : List (String × Address) :=
  [("a", ⟨⟨"tcp://x"⟩, ⟨"queue://x"⟩⟩), ("b", ⟨⟨"tcp://b"⟩, ⟨"queue://b"⟩⟩), ("c", ⟨⟨"tcp://x"⟩, ⟨"queue://x"⟩⟩),
    ("d", ⟨⟨"tcp://d"⟩, ⟨"queue://d"⟩⟩), ("e", ⟨⟨"tcp://e"⟩, ⟨"queue://e"⟩⟩)]

/-- Two machines, each of which is the other one's only neighbour. -/
private def neighbours : List (String × Address) :=
  [("a", ⟨⟨"tcp://a"⟩, ⟨"queue://a"⟩⟩), ("b", ⟨⟨"tcp://b"⟩, ⟨"queue://b"⟩⟩)]

/-- The last of the five has its copies on the first two, and keeps copies for three shards. Of the two neighbours the
first is a holder of both shards. -/
theorem lookalikes_go_around :
    (∃ topology, Topology.build (.ring lookalikes) = .ok topology ∧
      (∀ node, topology.nodes[4]? = some node → node.holders.map some =
        [4, 0, 1].map fun position => topology.nodes[position]?.map (·.primary)) ∧
      (List.range 5).countP ((Config.ring lookalikes).serves 4) = 3) ∧
    ∃ topology, Topology.build (.ring neighbours) = .ok topology ∧
      topology.nodes.countP (·.holders.contains ⟨⟨"tcp://a"⟩, ⟨"queue://a"⟩⟩) = 2 := by
  constructor
  · obtain ⟨accepted, around⟩ := Topology.ring_goes_around lookalikes
    obtain ⟨topology, built⟩ := accepted.mpr ⟨by decide, by decide +kernel, by decide +kernel⟩
    obtain ⟨_, holders, serves, _⟩ := around topology built
    exact ⟨topology, built, fun node owned => holders 4 node owned, serves 4 (by decide)⟩
  · obtain ⟨accepted, around⟩ := Topology.ring_goes_around neighbours
    obtain ⟨topology, built⟩ := accepted.mpr ⟨by decide, by decide +kernel, by decide +kernel⟩
    obtain ⟨_, _, _, shown⟩ := around topology built
    exact ⟨topology, built, shown (by decide) neighbours[0] List.mem_cons_self⟩

end ReplicaRing
