import Mathlib.Data.List.Nodup
import ReplicaRing.Proofs.Grouping

/-! Answers in the order of the batch. For each group of a batch one answer is accepted, and a request gets that part
of its group's answer which stands where the request stands in the group. A batch goes through as soon as every group
is answered in full, whatever the holders that were tried before said, so no slot is ever found empty. -/

namespace ReplicaRing

namespace Failover

variable {σ α : Type}

/-- What is taken from the reply of a holder. One that says too little is as good as none. -/
def accepted (content : Answer → Option α) : Except NetworkError Answer → Option α
  | .ok (.fault _) => none
  | .ok answer => content answer
  | .error _ => none

/-- Endpoints are asked in turn, and the first reply that can be taken is. -/
inductive Accepts (content : Answer → Option α) (transport : Transport σ) (call : Call) :
    List Endpoint → σ → α → σ → Prop where
  | first {endpoint : Endpoint} {rest : List Endpoint} {state final : σ} {reply : Except NetworkError Answer} {found : α}
      (asked : transport endpoint call state = (reply, final)) (taken : accepted content reply = some found) :
      Accepts content transport call (endpoint :: rest) state found final
  | next {endpoint : Endpoint} {rest : List Endpoint} {state between final : σ} {reply : Except NetworkError Answer}
      {found : α} (asked : transport endpoint call state = (reply, between)) (passed : accepted content reply = none)
      (later : Accepts content transport call rest between found final) :
      Accepts content transport call (endpoint :: rest) state found final

variable {transport : Transport σ} {operation : String} {content : Answer → Option α} {call : Call} {endpoint : Endpoint}
  {state between final : σ} {reply : Except NetworkError Answer}

theorem expect_taken {found : α} (asked : transport endpoint call state = (reply, final))
    (taken : accepted content reply = some found) :
    expect transport operation content call endpoint state = (.ok found, final) := by
  unfold expect ask
  rw [asked]
  cases reply with
  | error _ => cases taken
  | ok answer =>
    cases answer with
    | fault _ => cases taken
    | _ =>
      simp only [accepted] at taken
      simp only [taken]

/-- What is said of a reply that is not taken. -/
def complaint (operation : String) : Except NetworkError Answer → Error
  | .error error => .network error
  | .ok (.fault fault) => .ofFault fault
  | .ok answer => unexpected operation answer

theorem expect_passed (asked : transport endpoint call state = (reply, between)) (passed : accepted content reply = none) :
    expect transport operation content call endpoint state = (.error (complaint operation reply), between) := by
  unfold expect ask
  rw [asked]
  cases reply with
  | error _ => rfl
  | ok answer =>
    cases answer with
    | fault _ => rfl
    | _ =>
      simp only [accepted] at passed
      simp only [passed, complaint]

theorem accepts_cons_of_taken {endpoints : List Endpoint} {answer found : α} {after : σ}
    (asked : transport endpoint call state = (reply, between)) (taken : accepted content reply = some answer) :
    Accepts content transport call (endpoint :: endpoints) state found after ↔ answer = found ∧ between = after := by
  constructor
  · intro accepts
    cases accepts with
    | first again own =>
      cases asked.symm.trans again
      exact ⟨Option.some.inj (taken.symm.trans own), rfl⟩
    | next again passed _ =>
      cases asked.symm.trans again
      cases taken.symm.trans passed
  · rintro ⟨rfl, rfl⟩
    exact .first asked taken

theorem accepts_cons_of_passed {endpoints : List Endpoint} {found : α} {after : σ}
    (asked : transport endpoint call state = (reply, between)) (passed : accepted content reply = none) :
    Accepts content transport call (endpoint :: endpoints) state found after ↔
      Accepts content transport call endpoints between found after := by
  constructor
  · intro accepts
    cases accepts with
    | first again own =>
      cases asked.symm.trans again
      cases passed.symm.trans own
    | next again _ later =>
      cases asked.symm.trans again
      exact later
  · exact .next asked passed

theorem attempt_ok_iff (operation : String) (last : Error) {endpoints : List Endpoint} {found : α} :
    attempt (expect transport operation content call) last endpoints state = (.ok found, final) ↔
      Accepts content transport call endpoints state found final := by
  induction endpoints generalizing last state with
  | nil =>
    constructor
    · intro wrong
      cases wrong
    · intro wrong
      cases wrong
  | cons endpoint endpoints ih =>
    cases asked : transport endpoint call state with
    | mk reply next =>
      cases taken : accepted content reply with
      | some answer =>
        simp only [attempt, expect_taken asked taken, accepts_cons_of_taken asked taken, Prod.mk.injEq, Except.ok.injEq]
      | none => rw [attempt, expect_passed asked taken, ih, accepts_cons_of_passed asked taken]

end Failover

namespace Portion

variable {count : Nat} {shard : Fin count} {shards : List (Fin count)}

theorem places_length (shard : Fin count) (shards : List (Fin count)) :
    (places shard shards).length = shards.count shard := by
  induction shards using List.reverseRecOn with
  | nil => rfl
  | append_singleton shards last ih =>
    rw [places_concat, List.length_append, ih, List.count_append]
    by_cases same : last = shard
    · simp [same]
    · simp [same]

theorem places_nodup (shard : Fin count) (shards : List (Fin count)) : (places shard shards).Nodup :=
  List.nodup_range.filter _

/-- Before a place of a shard there are as many places as the shard has been named before. -/
theorem places_rank {position : Nat} (own : shards[position]? = some shard) :
    (places shard shards)[(shards.take position).count shard]? = some position := by
  induction shards using List.reverseRecOn with
  | nil => cases own
  | append_singleton shards last ih =>
    rw [places_concat]
    by_cases earlier : position < shards.length
    · rw [List.getElem?_append_left earlier] at own
      have found := ih own
      rw [List.take_append_of_le_length (Nat.le_of_lt earlier),
        List.getElem?_append_left (List.getElem?_eq_some_iff.mp found).1]
      exact found
    · obtain ⟨inside, named⟩ := List.getElem?_eq_some_iff.mp own
      obtain rfl : position = shards.length := by
        rw [List.length_append, List.length_singleton] at inside
        omega
      rw [List.getElem_concat_length rfl] at named
      rw [List.take_left', ← places_length, if_pos named, List.getElem?_concat_length]
      rfl

end Portion

namespace Client

variable {σ ρ α : Type}

section Scatter

variable {slots : List (Option α)} {positions : List Nat} {answers : List α} {position : Nat}

theorem scatter_other (foreign : position ∉ positions) : (scatter slots positions answers)[position]? = slots[position]? := by
  induction positions generalizing slots answers with
  | nil => rfl
  | cons first positions ih =>
    obtain ⟨different, later⟩ := not_or.mp (mt List.mem_cons.mpr foreign)
    cases answers with
    | nil => rfl
    | cons answer answers => rw [scatter, ih later, List.getElem?_set_ne (Ne.symm different)]

theorem scatter_own (distinct : positions.Nodup) (inside : position < slots.length) {index : Nat}
    (placed : positions[index]? = some position) {answer : α} (given : answers[index]? = some answer) :
    (scatter slots positions answers)[position]? = some (some answer) := by
  induction positions generalizing slots answers index with
  | nil => cases placed
  | cons first positions ih =>
    obtain ⟨fresh, distinct⟩ := List.nodup_cons.mp distinct
    cases answers with
    | nil => cases given
    | cons head answers =>
      rw [scatter]
      cases index with
      | zero =>
        cases placed
        cases given
        rw [scatter_other fresh, List.getElem?_set_self inside]
      | succ index => exact ih distinct (by rwa [List.length_set]) placed given

end Scatter

/-- The answers for some shards, put where the shards stand in the batch. -/
def assemble {count : Nat} (shards : List (Fin count)) :
    List (Option α) → List (Fin count × List α) → List (Option α)
  | slots, [] => slots
  | slots, (shard, found) :: rest => assemble shards (scatter slots (Portion.places shard shards) found) rest

section Assemble

variable {count : Nat} {shards : List (Fin count)} {slots : List (Option α)} {gathered : List (Fin count × List α)}

theorem assemble_length : (assemble shards slots gathered).length = slots.length := by
  induction gathered generalizing slots with
  | nil => rfl
  | cons part gathered ih => rw [assemble, ih, scatter_length]

theorem assemble_other {position : Nat} {shard : Fin count} (own : shards[position]? = some shard)
    (foreign : shard ∉ gathered.map (·.1)) : (assemble shards slots gathered)[position]? = slots[position]? := by
  induction gathered generalizing slots with
  | nil => rfl
  | cons part gathered ih =>
    obtain ⟨different, later⟩ := not_or.mp (mt List.mem_cons.mpr foreign)
    rw [assemble, ih later, scatter_other]
    intro placed
    exact different (Option.some.inj (own.symm.trans (Portion.mem_places.mp placed)))

/-- A slot gets that part of its shard's answer which stands behind one part for each earlier place of the shard. -/
theorem assemble_own {position : Nat} {shard : Fin count} {found : List α} (own : shards[position]? = some shard)
    (counted : slots.length = shards.length) (distinct : (gathered.map (·.1)).Nodup) (answered : (shard, found) ∈ gathered)
    {answer : α} (given : found[(shards.take position).count shard]? = some answer) :
    (assemble shards slots gathered)[position]? = some (some answer) := by
  induction gathered generalizing slots with
  | nil => cases answered
  | cons part gathered ih =>
    obtain ⟨fresh, distinct⟩ := List.nodup_cons.mp distinct
    rw [assemble]
    rcases List.mem_cons.mp answered with rfl | later
    · rw [assemble_other own fresh]
      have inside : position < slots.length := counted ▸ (List.getElem?_eq_some_iff.mp own).1
      exact scatter_own (Portion.places_nodup shard shards) inside (Portion.places_rank own) given
    · exact ih (by rw [scatter_length, counted]) distinct later

end Assemble

variable (client : Client) (transport : Transport σ) (operation : Operation ρ α)

/-- Groups are sent in order to the holders of their shards, and for each an answer is accepted that has as many parts
as the group has items. -/
inductive Gathers : List (Fin client.topology.count × List ρ) → σ → List (Fin client.topology.count × List α) → σ → Prop where
  | done {state : σ} : Gathers [] state [] state
  | sent {shard : Fin client.topology.count} {group : List ρ} {groups : List (Fin client.topology.count × List ρ)}
      {state between final : σ} {found : List α} {gathered : List (Fin client.topology.count × List α)}
      (accepts : Failover.Accepts operation.content transport (operation.call (client.nodeOf shard) group)
        (client.nodeOf shard).chain state found between)
      (counted : found.length = group.length) (later : Gathers groups between gathered final) :
      Gathers ((shard, group) :: groups) state ((shard, found) :: gathered) final

/-- Each result is the part of its shard's answer at the number of earlier items of the batch in that shard. -/
structure LinedUp (items : List ρ) (gathered : List (Fin client.topology.count × List α)) (results : List α) : Prop where
  length : results.length = items.length
  placed : ∀ (position : Nat) (item : ρ), items[position]? = some item →
    ∃ found, (client.shardOf (operation.key item), found) ∈ gathered ∧ ∃ result, results[position]? = some result ∧
      found[(items.take position).countP fun earlier =>
        client.shardOf (operation.key earlier) = client.shardOf (operation.key item)]? = some result

variable {client transport operation} {items : List ρ} {groups : List (Fin client.topology.count × List ρ)} {state final : σ}
  {gathered : List (Fin client.topology.count × List α)} {results : List α}

theorem Gathers.shards (gathers : client.Gathers transport operation groups state gathered final) :
    gathered.map (·.1) = groups.map (·.1) := by
  induction gathers with
  | done => rfl
  | sent _ _ _ ih => rw [List.map_cons, List.map_cons, ih]

theorem Gathers.answered (gathers : client.Gathers transport operation groups state gathered final)
    {shard : Fin client.topology.count} {group : List ρ} (listed : (shard, group) ∈ groups) :
    ∃ found, (shard, found) ∈ gathered ∧ found.length = group.length := by
  induction gathers with
  | done => cases listed
  | sent _ counted _ ih =>
    rcases List.mem_cons.mp listed with same | later
    · cases same
      exact ⟨_, List.mem_cons_self, counted⟩
    · obtain ⟨found, member, full⟩ := ih later
      exact ⟨found, List.mem_cons_of_mem _ member, full⟩

private theorem count_map {count : Nat} (shardOf : ρ → Fin count) (shard : Fin count) (items : List ρ) :
    (items.map shardOf).count shard = items.countP fun item => shardOf item = shard := by
  rw [List.count, List.countP_map]
  rfl

private theorem places_size {count : Nat} (shardOf : ρ → Fin count) (shard : Fin count) (items : List ρ) :
    (Portion.places shard (items.map shardOf)).length = (items.filter fun item => shardOf item = shard).length := by
  rw [Portion.places_length, count_map, List.countP_eq_length_filter]

private theorem runPortion_ok_iff {shard : Fin client.topology.count} {found : List α} :
    client.runPortion transport operation items
        { shard, positions := Portion.places shard (items.map fun item => client.shardOf (operation.key item)) } state =
          (.ok found, final) ↔
      Failover.Accepts operation.content transport
          (operation.call (client.nodeOf shard) (items.filter fun item => client.shardOf (operation.key item) = shard))
          (client.nodeOf shard).chain state found final ∧
        found.length = (items.filter fun item => client.shardOf (operation.key item) = shard).length := by
  unfold nodeOf
  rw [← Failover.attempt_ok_iff operation.name (Failover.nobody (client.topology.nodes.get shard))]
  simp only [runPortion, members_places, places_size, Failover.run]
  generalize Failover.attempt _ _ _ state = tried
  obtain ⟨result, next⟩ := tried
  cases result with
  | error _ => simp
  | ok answers =>
    simp only
    split
    · next full =>
      constructor
      · intro same
        cases same
        exact ⟨rfl, full⟩
      · exact fun both => both.1
    · next short =>
      constructor
      · intro wrong
        cases wrong
      · rintro ⟨same, full⟩
        cases same
        exact absurd full short

private theorem runPortions_ok_iff {names : List (Fin client.topology.count)} {slots filled : List (Option α)} :
    client.runPortions transport operation items
        (names.map fun shard =>
          { shard, positions := Portion.places shard (items.map fun item => client.shardOf (operation.key item)) })
        slots state = (.ok filled, final) ↔
      ∃ gathered, client.Gathers transport operation
          (names.map fun shard => (shard, items.filter fun item => client.shardOf (operation.key item) = shard))
          state gathered final ∧
        filled = assemble (items.map fun item => client.shardOf (operation.key item)) slots gathered := by
  induction names generalizing slots state with
  | nil =>
    constructor
    · intro same
      cases same
      exact ⟨[], .done, rfl⟩
    · rintro ⟨gathered, gathers, rfl⟩
      cases gathers
      rfl
  | cons shard names ih =>
    simp only [List.map_cons, runPortions]
    constructor
    · intro ran
      split at ran
      · cases ran
      · next found between tried =>
        obtain ⟨accepts, counted⟩ := runPortion_ok_iff.mp tried
        obtain ⟨gathered, later, same⟩ := ih.mp ran
        exact ⟨_, .sent accepts counted later, same⟩
    · rintro ⟨gathered, gathers, rfl⟩
      cases gathers with
      | sent accepts counted later =>
        rw [runPortion_ok_iff.mpr ⟨accepts, counted⟩]
        exact ih.mpr ⟨_, later, rfl⟩

theorem filled_map_some (answers : List α) : filled (answers.map some) = some answers := by
  induction answers with
  | nil => rfl
  | cons answer answers ih => rw [List.map_cons, filled, ih, Option.map_some]

private def laidOut (client : Client) (operation : Operation ρ α) (items : List ρ)
    (gathered : List (Fin client.topology.count × List α)) : List (Option α) :=
  assemble (items.map fun item => client.shardOf (operation.key item)) (List.replicate items.length none) gathered

private theorem laidOut_length : (client.laidOut operation items gathered).length = items.length := by
  rw [laidOut, assemble_length, List.length_replicate]

section LinedUp

variable (gathers : client.Gathers transport operation (client.groups operation.key items) state gathered final)

include gathers

private theorem Gathers.distinct : (gathered.map (·.1)).Nodup := by
  rw [gathers.shards, groups, List.map_map]
  exact (List.map_id _).symm ▸ Portion.nodup_eraseDups _

private theorem Gathers.slot {position : Nat} {item : ρ} (stands : items[position]? = some item) :
    ∃ found, (client.shardOf (operation.key item), found) ∈ gathered ∧ ∃ result,
      (client.laidOut operation items gathered)[position]? = some (some result) ∧
      found[(items.take position).countP fun earlier =>
        client.shardOf (operation.key earlier) = client.shardOf (operation.key item)]? = some result := by
  have own : (items.map fun item => client.shardOf (operation.key item))[position]? =
      some (client.shardOf (operation.key item)) := by
    rw [List.getElem?_map, stands]
    rfl
  obtain ⟨found, answered, counted⟩ := gathers.answered
    (List.mem_map_of_mem (List.mem_eraseDups.mpr (List.mem_of_getElem? own)))
  have rank : ((items.map fun item => client.shardOf (operation.key item)).take position).count
      (client.shardOf (operation.key item)) < found.length := by
    have placed := (List.getElem?_eq_some_iff.mp (Portion.places_rank own)).1
    rwa [places_size, ← counted] at placed
  obtain ⟨result, given⟩ : ∃ result, found[((items.map fun item => client.shardOf (operation.key item)).take
      position).count (client.shardOf (operation.key item))]? = some result := ⟨_, List.getElem?_eq_getElem rank⟩
  refine ⟨found, answered, result, assemble_own own (by simp) gathers.distinct answered given, ?_⟩
  rw [← List.map_take, count_map] at given
  exact given

private theorem Gathers.linedUp_iff :
    client.laidOut operation items gathered = results.map some ↔ client.LinedUp operation items gathered results := by
  constructor
  · intro same
    refine ⟨?_, fun position item stands => ?_⟩
    · have counted := congrArg List.length same
      rw [laidOut_length, List.length_map] at counted
      exact counted.symm
    · obtain ⟨found, answered, result, slot, given⟩ := gathers.slot stands
      rw [same, List.getElem?_map, Option.map_eq_some_iff] at slot
      obtain ⟨other, placed, equal⟩ := slot
      cases equal
      exact ⟨found, answered, result, placed, given⟩
  · intro linedUp
    apply List.ext_getElem?
    intro position
    by_cases inside : position < items.length
    · obtain ⟨found, answered, result, slot, given⟩ := gathers.slot (List.getElem?_eq_getElem inside)
      obtain ⟨other, again, same, placed, own⟩ := linedUp.placed position _ (List.getElem?_eq_getElem inside)
      cases List.inj_on_of_nodup_map gathers.distinct answered again rfl
      cases given.symm.trans own
      rw [slot, List.getElem?_map, placed]
      rfl
    · rw [List.getElem?_eq_none, List.getElem?_eq_none]
      · rw [List.length_map, linedUp.length]
        omega
      · rw [laidOut_length]
        omega

private theorem Gathers.filled : ∃ results, Client.filled (client.laidOut operation items gathered) = some results := by
  apply exists_filled
  intro position inside
  rw [laidOut_length] at inside
  obtain ⟨_, _, result, slot, _⟩ := gathers.slot (List.getElem?_eq_getElem inside)
  exact ⟨result, slot⟩

end LinedUp

theorem run_of_portions {slots : List (Option α)}
    (ran : client.runPortions transport operation items (client.portions (items.map operation.key))
      (List.replicate items.length none) state = (.ok slots, final)) :
    ∃ results, client.run transport operation items state = (.ok results, final) := by
  rw [portions_eq_grouped] at ran
  obtain ⟨gathered, gathers, rfl⟩ := runPortions_ok_iff.mp ran
  obtain ⟨results, full⟩ := Gathers.filled gathers
  refine ⟨results, ?_⟩
  rw [laidOut] at full
  simp only [run, portions_eq_grouped, ran, full]

/-- A batch goes through exactly if all its groups are answered in full, and then its results are lined up. -/
theorem run_ok_iff :
    client.run transport operation items state = (.ok results, final) ↔
      ∃ gathered, client.Gathers transport operation (client.groups operation.key items) state gathered final ∧
        client.LinedUp operation items gathered results := by
  have portions {slots : List (Option α)} {final : σ} :
      client.runPortions transport operation items (client.portions (items.map operation.key))
          (List.replicate items.length none) state = (.ok slots, final) ↔
        ∃ gathered, client.Gathers transport operation (client.groups operation.key items) state gathered final ∧
          slots = client.laidOut operation items gathered := by
    rw [portions_eq_grouped]
    exact runPortions_ok_iff
  simp only [run]
  constructor
  · intro ran
    split at ran
    · cases ran
    · next slots between tried =>
      obtain ⟨gathered, gathers, rfl⟩ := portions.mp tried
      split at ran
      · next answers full =>
        cases ran
        exact ⟨gathered, gathers, gathers.linedUp_iff.mp (filled_eq full)⟩
      · cases ran
  · rintro ⟨gathered, gathers, linedUp⟩
    rw [portions.mpr ⟨gathered, gathers, rfl⟩]
    simp only [gathers.linedUp_iff.mpr linedUp, filled_map_some]

theorem exists_gathers (value : ρ → α) {groups : List (Fin client.topology.count × List ρ)}
    (answered : ∀ shard group, (shard, group) ∈ groups → ∀ endpoint ∈ (client.nodeOf shard).chain, ∀ earlier,
      Failover.accepted operation.content (transport endpoint (operation.call (client.nodeOf shard) group) earlier).1 =
        some (group.map value)) (state : σ) :
    ∃ final, client.Gathers transport operation groups state
      (groups.map fun part => (part.1, part.2.map value)) final := by
  induction groups generalizing state with
  | nil => exact ⟨state, .done⟩
  | cons part groups ih =>
    obtain ⟨shard, group⟩ := part
    have first := answered shard group List.mem_cons_self (client.nodeOf shard).primary.sync List.mem_cons_self state
    obtain ⟨final, later⟩ := ih (fun other rest listed => answered other rest (List.mem_cons_of_mem _ listed))
      (transport (client.nodeOf shard).primary.sync (operation.call (client.nodeOf shard) group) state).2
    exact ⟨final, .sent (.first rfl first) (List.length_map _) later⟩

private theorem group_rank {count : Nat} (shardOf : ρ → Fin count) {position : Nat} {item : ρ}
    (stands : items[position]? = some item) :
    (items.filter fun other => shardOf other = shardOf item)[(items.take position).countP fun earlier =>
      shardOf earlier = shardOf item]? = some item := by
  have own : (items.map shardOf)[position]? = some (shardOf item) := by
    rw [List.getElem?_map, stands]
    rfl
  have inside : ∀ place ∈ Portion.places (shardOf item) (items.map shardOf), place < items.length := by
    intro place member
    have found := (List.getElem?_eq_some_iff.mp (Portion.mem_places.mp member)).1
    rwa [List.length_map] at found
  rw [← members_places, members_get inside, ← count_map, List.map_take, Portion.places_rank own]
  exact stands

theorem linedUp_map (value : ρ → α) :
    client.LinedUp operation items
      ((client.groups operation.key items).map fun part => (part.1, part.2.map value)) (items.map value) where
  length := List.length_map _
  placed position item stands := by
    have listed : client.shardOf (operation.key item) ∈ items.map fun item => client.shardOf (operation.key item) :=
      List.mem_map_of_mem (List.mem_of_getElem? stands)
    refine ⟨_, List.mem_map_of_mem (List.mem_map_of_mem (List.mem_eraseDups.mpr listed)), value item, ?_, ?_⟩
    · rw [List.getElem?_map, stands]
      rfl
    · rw [List.getElem?_map, group_rank (fun item => client.shardOf (operation.key item)) stands]
      rfl

end Client
end ReplicaRing
