import Mathlib.Data.List.Induction
import ReplicaRing.Proofs.Routing

/-! The portions of a batch are its groups: the shards in the order in which the batch first names them, each with
its items as they stand in the batch. Every position of a batch is in one of the portions, so a batch whose portions
are all answered leaves no slot empty. -/

namespace ReplicaRing

namespace Portion

variable {count : Nat}

/-- Where a shard stands in a list of shards. -/
def places (shard : Fin count) (shards : List (Fin count)) : List Nat :=
  (List.range shards.length).filter fun position => shards[position]? = some shard

/-- The shards of a list in the order of their first places, each with all its places. -/
def grouped (shards : List (Fin count)) : List (Portion count) :=
  shards.eraseDups.map fun shard => { shard, positions := places shard shards }

theorem places_concat (shard last : Fin count) (shards : List (Fin count)) :
    places shard (shards ++ [last]) = places shard shards ++ if last = shard then [shards.length] else [] := by
  have earlier : ∀ position ∈ List.range shards.length,
      decide ((shards ++ [last])[position]? = some shard) = decide (shards[position]? = some shard) := by
    intro position inside
    rw [List.getElem?_append_left (List.mem_range.mp inside)]
  simp only [places, List.length_append, List.length_singleton, List.range_succ, List.filter_append,
    List.filter_congr earlier, List.filter_cons, List.filter_nil, List.getElem?_concat_length, Option.some.injEq,
    decide_eq_true_eq]

theorem mem_places {shard : Fin count} {shards : List (Fin count)} {position : Nat} :
    position ∈ places shard shards ↔ shards[position]? = some shard := by
  simp only [places, List.mem_filter, List.mem_range, decide_eq_true_eq, and_iff_right_iff_imp]
  exact fun found => (List.getElem?_eq_some_iff.mp found).1

theorem eraseDups_known {last : Fin count} {shards : List (Fin count)} (known : last ∈ shards) :
    (shards ++ [last]).eraseDups = shards.eraseDups := by
  simp [List.eraseDups_append, List.removeAll, known]

theorem eraseDups_new {last : Fin count} {shards : List (Fin count)} (new : last ∉ shards) :
    (shards ++ [last]).eraseDups = shards.eraseDups ++ [last] := by
  simp [List.eraseDups_append, List.removeAll, new, List.eraseDups_cons]

theorem nodup_eraseDups (shards : List (Fin count)) : shards.eraseDups.Nodup := by
  induction shards using List.reverseRecOn with
  | nil => exact List.nodup_nil
  | append_singleton shards last ih =>
    by_cases known : last ∈ shards
    · rwa [eraseDups_known known]
    · rw [eraseDups_new known, List.nodup_append]
      refine ⟨ih, by simp, ?_⟩
      intro shard member other single
      rw [List.mem_singleton.mp single]
      intro same
      exact known (List.mem_eraseDups.mp (same ▸ member))

section Place

variable {last : Fin count} {position : Nat} {positions : Fin count → List Nat} {shards : List (Fin count)}

private theorem place_known (distinct : shards.Nodup) (known : last ∈ shards) :
    place last position (shards.map fun shard => { shard, positions := positions shard }) =
      shards.map fun shard =>
        { shard, positions := positions shard ++ if last = shard then [position] else [] } := by
  induction shards with
  | nil => cases known
  | cons shard shards ih =>
    obtain ⟨fresh, distinct⟩ := List.nodup_cons.mp distinct
    simp only [List.map_cons, place]
    by_cases same : shard = last
    · subst same
      have others : ∀ other ∈ shards, ({ shard := other, positions := positions other } : Portion count) =
          { shard := other, positions := positions other ++ if shard = other then [position] else [] } := by
        intro other member
        have different : shard ≠ other := fun same => fresh (same ▸ member)
        rw [if_neg different, List.append_nil]
      simp only [if_true, List.map_congr_left others]
    · have later := (List.mem_cons.mp known).resolve_left (Ne.symm same)
      simp only [same, Ne.symm same, if_false, List.append_nil, ih distinct later]

private theorem place_new (new : last ∉ shards) :
    place last position (shards.map fun shard => { shard, positions := positions shard }) =
      (shards.map fun shard => { shard, positions := positions shard }) ++
        [{ shard := last, positions := [position] }] := by
  induction shards with
  | nil => rfl
  | cons shard shards ih =>
    obtain ⟨other, later⟩ := not_or.mp (mt List.mem_cons.mpr new)
    simp only [List.map_cons, place, Ne.symm other, if_false, ih later, List.cons_append]

end Place

private theorem place_grouped (last : Fin count) (shards : List (Fin count)) :
    place last shards.length (grouped shards) = grouped (shards ++ [last]) := by
  simp only [grouped, places_concat]
  by_cases known : last ∈ shards
  · rw [place_known (nodup_eraseDups shards) (List.mem_eraseDups.mpr known), eraseDups_known known]
  · have own : places last shards = [] := by
      rw [List.eq_nil_iff_forall_not_mem]
      exact fun position member => known (List.mem_of_getElem? (mem_places.mp member))
    have others : ∀ shard ∈ shards.eraseDups, ({ shard, positions := places shard shards } : Portion count) =
        { shard, positions := places shard shards ++ if last = shard then [shards.length] else [] } := by
      intro shard member
      have different : last ≠ shard := fun same => known (same ▸ List.mem_eraseDups.mp member)
      rw [if_neg different, List.append_nil]
    rw [place_new (mt List.mem_eraseDups.mp known), eraseDups_new known, List.map_append, List.map_congr_left others]
    simp only [List.map_cons, List.map_nil, own, if_true, List.nil_append]

private theorem placeAll_concat (portions : List (Portion count)) (position : Nat) (last : Fin count)
    (shards : List (Fin count)) :
    placeAll portions position (shards ++ [last]) =
      place last (position + shards.length) (placeAll portions position shards) := by
  induction shards generalizing portions position with
  | nil => rfl
  | cons shard shards ih =>
    simp only [List.cons_append, placeAll, ih, List.length_cons, Nat.add_assoc, Nat.add_comm 1]

theorem placeAll_eq_grouped (shards : List (Fin count)) : placeAll [] 0 shards = grouped shards := by
  induction shards using List.reverseRecOn with
  | nil => rfl
  | append_singleton shards last ih => rw [placeAll_concat, ih, Nat.zero_add, place_grouped]

end Portion

namespace Client

variable {σ ρ α : Type} (client : Client) (key : ρ → String)

/-- The items of each shard that a batch names, in the order in which it names the shards first. -/
def groups (items : List ρ) : List (Fin client.topology.count × List ρ) :=
  (items.map fun item => client.shardOf (key item)).eraseDups.map fun shard =>
    (shard, items.filter fun item => client.shardOf (key item) = shard)

theorem portions_eq_grouped (items : List ρ) :
    client.portions (items.map key) = Portion.grouped (items.map fun item => client.shardOf (key item)) := by
  simp only [portions, Partitioner.portions, Portion.placeAll_eq_grouped, List.map_map]
  rfl

private theorem members_concat (items : List ρ) (last : ρ) {positions : List Nat}
    (inside : ∀ position ∈ positions, position < items.length) :
    members (items ++ [last]) positions = members items positions := by
  induction positions with
  | nil => rfl
  | cons position positions ih =>
    have rest := ih fun other member => inside other (List.mem_cons_of_mem _ member)
    simp only [members, List.filterMap_cons, List.getElem?_append_left (inside position List.mem_cons_self)] at rest ⊢
    rw [rest]

theorem members_places {count : Nat} (shardOf : ρ → Fin count) (shard : Fin count) (items : List ρ) :
    members items (Portion.places shard (items.map shardOf)) = items.filter fun item => shardOf item = shard := by
  induction items using List.reverseRecOn with
  | nil => rfl
  | append_singleton items last ih =>
    have inside : ∀ position ∈ Portion.places shard (items.map shardOf), position < items.length := by
      intro position member
      have found := (List.getElem?_eq_some_iff.mp (Portion.mem_places.mp member)).1
      rwa [List.length_map] at found
    rw [List.map_append, List.map_singleton, Portion.places_concat, members, List.filterMap_append,
      List.filter_append, ← ih, ← members_concat items last inside, members]
    congr 1
    by_cases own : shardOf last = shard
    · simp [own]
    · simp [own]

theorem portions_groups (items : List ρ) :
    (client.portions (items.map key)).map (fun portion => (portion.shard, members items portion.positions)) =
      client.groups key items := by
  rw [portions_eq_grouped, Portion.grouped, List.map_map]
  apply List.map_congr_left
  intro shard _
  simp only [Function.comp_apply, members_places]

/-- Each position of a batch is in the portion of its shard. -/
theorem exists_portion {items : List ρ} {position : Nat} (inside : position < items.length) :
    ∃ portion ∈ client.portions (items.map key), position ∈ portion.positions := by
  have found : (items.map fun item => client.shardOf (key item))[position]? =
      some (client.shardOf (key items[position])) := by
    rw [List.getElem?_map, List.getElem?_eq_getElem inside]
    rfl
  rw [portions_eq_grouped]
  exact ⟨_, List.mem_map_of_mem (List.mem_eraseDups.mpr (List.mem_of_getElem? found)), Portion.mem_places.mpr found⟩

variable {client key}

theorem members_length {items : List ρ} {portion : Portion client.topology.count}
    (member : portion ∈ client.portions (items.map key)) :
    (members items portion.positions).length = portion.positions.length := by
  have inside : ∀ position ∈ portion.positions, ∃ item, items[position]? = some item := by
    intro position placed
    rw [portions_eq_grouped, Portion.grouped, List.mem_map] at member
    obtain ⟨shard, _, rfl⟩ := member
    have found := Portion.mem_places.mp placed
    rw [List.getElem?_map, Option.map_eq_some_iff] at found
    obtain ⟨item, present, _⟩ := found
    exact ⟨item, present⟩
  generalize portion.positions = positions at inside
  induction positions with
  | nil => rfl
  | cons position positions ih =>
    obtain ⟨item, found⟩ := inside position List.mem_cons_self
    have rest := ih fun other placed => inside other (List.mem_cons_of_mem _ placed)
    simp only [members, List.filterMap_cons, found, List.length_cons] at rest ⊢
    rw [rest]

def Answered (slots : List (Option α)) (position : Nat) : Prop :=
  ∃ answer, slots[position]? = some (some answer)

private theorem set_answered {slots : List (Option α)} {position other : Nat} {answer : α}
    (before : Answered slots position) : Answered (slots.set other (some answer)) position := by
  obtain ⟨found, slot⟩ := before
  by_cases same : other = position
  · subst same
    have inside := (List.getElem?_eq_some_iff.mp slot).1
    exact ⟨answer, by rw [List.getElem?_set_self inside]⟩
  · exact ⟨found, by rwa [List.getElem?_set_ne same]⟩

theorem scatter_answered {slots : List (Option α)} {positions : List Nat} {answers : List α} {position : Nat}
    (before : Answered slots position) : Answered (scatter slots positions answers) position := by
  induction positions generalizing slots answers with
  | nil => exact before
  | cons first positions ih =>
    cases answers with
    | nil => exact before
    | cons answer answers => exact ih (set_answered before)

/-- If there are as many answers as positions, all these positions get one. -/
theorem scatter_answers {slots : List (Option α)} {positions : List Nat} {answers : List α} {position : Nat}
    (counted : answers.length = positions.length) (inside : position < slots.length) (own : position ∈ positions) :
    Answered (scatter slots positions answers) position := by
  induction positions generalizing slots answers with
  | nil => cases own
  | cons first positions ih =>
    cases answers with
    | nil => cases counted
    | cons answer answers =>
      rw [scatter]
      rcases List.mem_cons.mp own with rfl | later
      · have first : Answered (slots.set position (some answer)) position := ⟨answer, List.getElem?_set_self inside⟩
        exact scatter_answered first
      · exact ih (Nat.succ.inj counted) (by rwa [List.length_set]) later

theorem exists_filled {slots : List (Option α)} (all : ∀ position < slots.length, Answered slots position) :
    ∃ answers, filled slots = some answers := by
  induction slots with
  | nil => exact ⟨[], rfl⟩
  | cons slot slots ih =>
    obtain ⟨answer, first⟩ := all 0 (Nat.succ_pos _)
    obtain rfl : slot = some answer := Option.some.inj first
    obtain ⟨answers, rest⟩ := ih fun position inside => all (position + 1) (Nat.succ_lt_succ inside)
    exact ⟨answer :: answers, by rw [filled, rest]; rfl⟩

end Client
end ReplicaRing
