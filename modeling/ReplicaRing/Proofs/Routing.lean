import ReplicaRing.Routing.Client

/-! What a client's batch does over any transport. Every call that is made carries items of one
shard to one of the shard's holders, and an answer to an item was given to a call it was in. -/

namespace ReplicaRing

namespace Portion

variable {count : Nat}

def Placed (shards : List (Fin count)) (portions : List (Portion count)) : Prop :=
  ∀ portion ∈ portions, ∀ position ∈ portion.positions, shards[position]? = some portion.shard

private theorem place_placed {shards : List (Fin count)} {portions : List (Portion count)} {shard : Fin count}
    {position : Nat} (placed : Placed shards portions) (found : shards[position]? = some shard) :
    Placed shards (place shard position portions) := by
  induction portions with
  | nil =>
    intro portion member index inside
    simp only [place, List.mem_singleton] at member
    subst member
    simp only [List.mem_singleton] at inside
    exact inside ▸ found
  | cons first portions ih =>
    have later : Placed shards portions := fun portion member => placed portion (List.mem_cons_of_mem _ member)
    have own := placed first List.mem_cons_self
    intro portion member index inside
    simp only [place] at member
    split at member
    · next same =>
      rcases List.mem_cons.mp member with rfl | member
      · rcases List.mem_append.mp inside with old | new
        · exact own index old
        · simp only [List.mem_singleton] at new
          subst new
          exact found.trans (congrArg some same.symm)
      · exact later portion member index inside
    · rcases List.mem_cons.mp member with rfl | member
      · exact own index inside
      · exact ih later portion member index inside

private theorem placeAll_placed {shards rest : List (Fin count)} {portions : List (Portion count)} {position : Nat}
    (placed : Placed shards portions) (left : shards.drop position = rest) :
    Placed shards (placeAll portions position rest) := by
  induction rest generalizing portions position with
  | nil => exact placed
  | cons shard rest ih =>
    have found : shards[position]? = some shard := by
      have head := congrArg (·[0]?) left
      simpa [List.getElem?_drop] using head
    apply ih (place_placed placed found)
    have tail := congrArg (List.drop 1) left
    simpa [List.drop_drop, Nat.add_comm] using tail

theorem portions_placed (partitioner : Partitioner) (count : Nat) (positive : 0 < count) (keys : List String) :
    Placed (keys.map fun key => partitioner.shard (Utf8.ofString key) count positive)
      (partitioner.portions count positive keys) :=
  placeAll_placed (fun _ member => by cases member) rfl

end Portion

namespace Failover

variable {σ α : Type} {transport : Transport σ} {action : Endpoint → σ → Except Error α × σ}

theorem attempt_keeps (property : σ → Prop) {endpoints : List Endpoint}
    (kept : ∀ endpoint ∈ endpoints, ∀ state, property state → property (action endpoint state).2)
    (last : Error) {state : σ} (before : property state) : property (attempt action last endpoints state).2 := by
  induction endpoints generalizing last state with
  | nil => exact before
  | cons endpoint endpoints ih =>
    have after := kept endpoint List.mem_cons_self state before
    simp only [attempt]
    generalize action endpoint state = pair at after ⊢
    obtain ⟨_ | _, next⟩ := pair
    · exact ih (fun other member => kept other (List.mem_cons_of_mem _ member)) _ after
    · exact after

/-- A success is that of one attempt, in a state that still has what the attempts before it kept. -/
theorem attempt_answered (property : σ → Prop) {endpoints : List Endpoint}
    (kept : ∀ endpoint ∈ endpoints, ∀ state, property state → property (action endpoint state).2)
    {last : Error} {state final : σ} {answer : α} (before : property state)
    (ran : attempt action last endpoints state = (.ok answer, final)) :
    ∃ endpoint ∈ endpoints, ∃ earlier, property earlier ∧ action endpoint earlier = (.ok answer, final) := by
  induction endpoints generalizing last state with
  | nil => simp [attempt] at ran
  | cons endpoint endpoints ih =>
    have after := kept endpoint List.mem_cons_self state before
    simp only [attempt] at ran
    cases tried : action endpoint state with
    | mk result next =>
      rw [tried] at ran after
      cases result with
      | ok _ => exact ⟨endpoint, List.mem_cons_self, state, before, tried.trans ran⟩
      | error error =>
        obtain ⟨other, member, rest⟩ := ih (fun other member => kept other (List.mem_cons_of_mem _ member)) after ran
        exact ⟨other, List.mem_cons_of_mem _ member, rest⟩

theorem expect_state (operation : String) (content : Answer → Option α) (call : Call) (endpoint : Endpoint)
    (state : σ) : (expect transport operation content call endpoint state).2 = (transport endpoint call state).2 := by
  unfold expect ask
  generalize transport endpoint call state = pair
  obtain ⟨_ | answer, next⟩ := pair
  · rfl
  · cases answer <;> simp only <;> split <;> rfl

theorem expect_answered {operation : String} {content : Answer → Option α} {call : Call} {endpoint : Endpoint}
    {state final : σ} {found : α} (asked : expect transport operation content call endpoint state = (.ok found, final)) :
    ∃ answer, transport endpoint call state = (.ok answer, final) ∧ content answer = some found := by
  unfold expect ask at asked
  generalize transport endpoint call state = pair at asked ⊢
  obtain ⟨_ | answer, next⟩ := pair
  · simp at asked
  · refine ⟨answer, ?_⟩
    cases answer with
    | fault _ => simp at asked
    | _ =>
      simp only at asked
      split at asked <;> simp_all

end Failover

namespace Client

variable {σ ρ α : Type} (client : Client) (transport : Transport σ) (operation : Operation ρ α)

def shardOf (key : String) : Fin client.topology.count :=
  client.topology.shardOf client.partitioner key

def nodeOf (shard : Fin client.topology.count) : Node :=
  client.topology.nodes.get shard

theorem members_get {items : List ρ} {positions : List Nat} (inside : ∀ position ∈ positions, position < items.length)
    (index : Nat) : (members items positions)[index]? = positions[index]?.bind (items[·]?) := by
  induction positions generalizing index with
  | nil => simp [members]
  | cons position positions ih =>
    have present := List.getElem?_eq_getElem (inside position List.mem_cons_self)
    have rest := ih fun other member => inside other (List.mem_cons_of_mem _ member)
    simp only [members, List.filterMap_cons, present] at rest ⊢
    cases index with
    | zero => simp [present]
    | succ index => simpa using rest index

private theorem portion_inside {items : List ρ} {portion : Portion client.topology.count}
    (member : portion ∈ client.portions (items.map operation.key)) {position : Nat}
    (inside : position ∈ portion.positions) :
    ∃ item, items[position]? = some item ∧ client.shardOf (operation.key item) = portion.shard := by
  have placed := Portion.portions_placed client.partitioner client.topology.count client.topology.positive
    (items.map operation.key) portion member position inside
  simpa [List.getElem?_map, Option.map_eq_some_iff, shardOf, Topology.shardOf] using placed

/-- The items a call may carry: some of the batch, all of the shard that is called. -/
def Carries (items : List ρ) (shard : Fin client.topology.count) (carried : List ρ) : Prop :=
  ∀ item ∈ carried, item ∈ items ∧ client.shardOf (operation.key item) = shard

private theorem portion_carries {items : List ρ} {portion : Portion client.topology.count}
    (member : portion ∈ client.portions (items.map operation.key)) :
    client.Carries operation items portion.shard (members items portion.positions) := by
  intro item carried
  obtain ⟨position, inside, found⟩ := List.mem_filterMap.mp carried
  obtain ⟨other, same, owned⟩ := client.portion_inside operation member inside
  rw [found] at same
  cases same
  exact ⟨List.mem_of_getElem? found, owned⟩

variable {client transport operation}

/-- The calls of a batch keep a property of the state. -/
def CallsKeep (client : Client) (transport : Transport σ) (operation : Operation ρ α) (items : List ρ)
    (property : σ → Prop) : Prop :=
  ∀ shard carried endpoint state, client.Carries operation items shard carried →
    endpoint ∈ (client.nodeOf shard).chain → property state →
    property (transport endpoint (operation.call (client.nodeOf shard) carried) state).2

private theorem expect_keeps {property : σ → Prop} {items : List ρ}
    (kept : client.CallsKeep transport operation items property) {portion : Portion client.topology.count}
    (member : portion ∈ client.portions (items.map operation.key)) :
    ∀ endpoint ∈ (client.nodeOf portion.shard).chain, ∀ state, property state →
      property (Failover.expect transport operation.name operation.content
        (operation.call (client.nodeOf portion.shard) (members items portion.positions)) endpoint state).2 := by
  intro endpoint listed state before
  rw [Failover.expect_state]
  exact kept portion.shard _ endpoint state (client.portion_carries operation member) listed before

private theorem runPortion_keeps (property : σ → Prop) {items : List ρ}
    (kept : client.CallsKeep transport operation items property) {portion : Portion client.topology.count}
    (member : portion ∈ client.portions (items.map operation.key)) {state : σ} (before : property state) :
    property (client.runPortion transport operation items portion state).2 := by
  have tried : property (Failover.run (Failover.expect transport operation.name operation.content
      (operation.call (client.nodeOf portion.shard) (members items portion.positions)))
      (client.nodeOf portion.shard) state).2 :=
    Failover.attempt_keeps property (expect_keeps kept member) _ before
  unfold nodeOf at tried
  simp only [runPortion]
  generalize Failover.run _ _ state = pair at tried ⊢
  obtain ⟨_ | answers, next⟩ := pair
  · exact tried
  · simp only
    split <;> exact tried

theorem run_keeps (property : σ → Prop) {items : List ρ}
    (kept : client.CallsKeep transport operation items property) {state : σ} (before : property state) :
    property (client.run transport operation items state).2 := by
  have allPortions (portions : List (Portion client.topology.count))
      (listed : ∀ portion ∈ portions, portion ∈ client.portions (items.map operation.key))
      (slots : List (Option α)) (state : σ) (before : property state) :
      property (client.runPortions transport operation items portions slots state).2 := by
    induction portions generalizing slots state with
    | nil => exact before
    | cons portion portions ih =>
      have after := runPortion_keeps property kept (listed portion List.mem_cons_self) before
      simp only [runPortions]
      generalize client.runPortion transport operation items portion state = pair at after ⊢
      obtain ⟨_ | answers, next⟩ := pair
      · exact after
      · exact ih (fun other member => listed other (List.mem_cons_of_mem _ member)) _ next after
  have after := allPortions _ (fun _ member => member) (List.replicate items.length none) state before
  simp only [run]
  generalize client.runPortions _ _ _ _ _ state = pair at after ⊢
  obtain ⟨_ | slots, next⟩ := pair
  · exact after
  · simp only
    split <;> exact after

private theorem scatter_get {slots : List (Option α)} {positions : List Nat} {answers : List α} {position : Nat}
    {answer : α} (found : (scatter slots positions answers)[position]? = some (some answer)) :
    slots[position]? = some (some answer) ∨
      ∃ index : Nat, positions[index]? = some position ∧ answers[index]? = some answer := by
  induction positions generalizing slots answers with
  | nil => exact Or.inl found
  | cons first positions ih =>
    cases answers with
    | nil => exact Or.inl found
    | cons head answers =>
      rcases ih found with old | ⟨index, here, answered⟩
      · by_cases same : first = position
        · subst same
          refine Or.inr ⟨0, rfl, ?_⟩
          rw [List.getElem?_set_self'] at old
          cases inside : slots[first]? with
          | none => simp [inside] at old
          | some _ => simpa [inside] using old
        · exact Or.inl (by rwa [List.getElem?_set_ne same] at old)
      · exact Or.inr ⟨index + 1, here, answered⟩

theorem filled_eq {slots : List (Option α)} {answers : List α} (full : filled slots = some answers) :
    slots = answers.map some := by
  induction slots generalizing answers with
  | nil =>
    cases full
    rfl
  | cons slot slots ih =>
    cases slot with
    | none => cases full
    | some answer =>
      simp only [filled, Option.map_eq_some_iff] at full
      obtain ⟨rest, filledRest, rfl⟩ := full
      rw [ih filledRest, List.map_cons]

private theorem runPortion_answered (property : σ → Prop) {items : List ρ}
    (kept : client.CallsKeep transport operation items property) {portion : Portion client.topology.count}
    (member : portion ∈ client.portions (items.map operation.key)) {state final : σ} {answers : List α}
    (before : property state) (ran : client.runPortion transport operation items portion state = (.ok answers, final)) :
    ∃ endpoint earlier answer, property earlier ∧
      transport endpoint (operation.call (client.nodeOf portion.shard) (members items portion.positions)) earlier =
        (.ok answer, final) ∧ operation.content answer = some answers := by
  simp only [runPortion] at ran
  split at ran
  · simp at ran
  · next found next tried =>
    split at ran
    · simp only [Prod.mk.injEq, Except.ok.injEq] at ran
      obtain ⟨rfl, rfl⟩ := ran
      obtain ⟨endpoint, _, earlier, holds, asked⟩ :=
        Failover.attempt_answered property (expect_keeps kept member) before tried
      obtain ⟨answer, called, content⟩ := Failover.expect_answered asked
      exact ⟨endpoint, earlier, answer, holds, called, content⟩
    · simp at ran

/-- What calls keep of the slots filled so far, and an answered call keeps as it fills its own slots, holds
when all slots are filled. -/
theorem run_fills (property : List (Option α) → σ → Prop) {items : List ρ}
    (kept : ∀ slots, client.CallsKeep transport operation items (property slots))
    (fills : ∀ portion ∈ client.portions (items.map operation.key), ∀ endpoint state answer found final slots,
      transport endpoint (operation.call (client.nodeOf portion.shard) (members items portion.positions)) state =
        (.ok answer, final) → operation.content answer = some found →
      property slots state → property (scatter slots portion.positions found) final)
    {state final : σ} {answers : List α} (before : property (List.replicate items.length none) state)
    (ran : client.run transport operation items state = (.ok answers, final)) :
    property (answers.map some) final := by
  have allPortions (portions : List (Portion client.topology.count))
      (listed : ∀ portion ∈ portions, portion ∈ client.portions (items.map operation.key))
      {slots filled : List (Option α)} {state : σ} (before : property slots state)
      (ran : client.runPortions transport operation items portions slots state = (.ok filled, final)) :
      property filled final := by
    induction portions generalizing slots state with
    | nil =>
      cases ran
      exact before
    | cons portion portions ih =>
      have member := listed portion List.mem_cons_self
      simp only [runPortions] at ran
      cases tried : client.runPortion transport operation items portion state with
      | mk result next =>
        rw [tried] at ran
        cases result with
        | error _ => simp at ran
        | ok found =>
          obtain ⟨endpoint, earlier, answer, holds, called, content⟩ :=
            runPortion_answered (property slots) (kept slots) member before tried
          apply ih (fun other member => listed other (List.mem_cons_of_mem _ member)) _ ran
          exact fills portion member endpoint earlier answer found next slots called content holds
  simp only [run] at ran
  split at ran
  · simp at ran
  · next slots next tried =>
    split at ran
    · next full filledAnswers =>
      simp only [Prod.mk.injEq, Except.ok.injEq] at ran
      obtain ⟨rfl, rfl⟩ := ran
      rw [← filled_eq filledAnswers]
      exact allPortions _ (fun _ member => member) before tried
    · simp at ran

/-- What is known of an answered call, and what no later call undoes. -/
structure Lasting (client : Client) (transport : Transport σ) (operation : Operation ρ α) (items : List ρ)
    (done : Fin client.topology.count → List ρ → List α → σ → Prop) : Prop where
  made : ∀ {shard carried endpoint state answer found final}, client.Carries operation items shard carried →
    transport endpoint (operation.call (client.nodeOf shard) carried) state = (.ok answer, final) →
    operation.content answer = some found → done shard carried found final
  kept : ∀ {shard carried found endpoint call state}, done shard carried found state →
    done shard carried found (transport endpoint call state).2

/-- Every slot that is filled holds what a call answered to the item at the slot's position. -/
def Justified (client : Client) (operation : Operation ρ α) (items : List ρ)
    (done : Fin client.topology.count → List ρ → List α → σ → Prop) (slots : List (Option α)) (state : σ) : Prop :=
  ∀ (position : Nat) (answer : α), slots[position]? = some (some answer) →
    ∃ shard carried found, client.Carries operation items shard carried ∧ done shard carried found state ∧
      ∃ (index : Nat) (item : ρ),
        items[position]? = some item ∧ carried[index]? = some item ∧ found[index]? = some answer

private theorem run_justified {done : Fin client.topology.count → List ρ → List α → σ → Prop} {items : List ρ}
    (lasting : client.Lasting transport operation items done) {state final : σ} {answers : List α}
    (ran : client.run transport operation items state = (.ok answers, final)) :
    client.Justified operation items done (answers.map some) final := by
  refine run_fills (client.Justified operation items done) ?_ ?_ ?_ ran
  · intro slots shard carried endpoint state _ _ before position answer slot
    obtain ⟨shard, carried, found, carries, holds, rest⟩ := before position answer slot
    exact ⟨shard, carried, found, carries, lasting.kept holds, rest⟩
  · intro portion member endpoint state reply found final slots called content before position answer slot
    rcases scatter_get slot with old | ⟨index, here, answered⟩
    · obtain ⟨shard, carried, others, carries, holds, rest⟩ := before position answer old
      have still : done shard carried others (transport endpoint
          (operation.call (client.nodeOf portion.shard) (members items portion.positions)) state).2 := lasting.kept holds
      rw [called] at still
      exact ⟨shard, carried, others, carries, still, rest⟩
    · obtain ⟨item, stands, _⟩ := client.portion_inside operation member (List.mem_of_getElem? here)
      have inside : ∀ position ∈ portion.positions, position < items.length := by
        intro position placed
        obtain ⟨_, present, _⟩ := client.portion_inside operation member placed
        exact (List.getElem?_eq_some_iff.mp present).1
      have carries := client.portion_carries operation member
      refine ⟨portion.shard, _, found, carries, lasting.made carries called content, index, item, stands, ?_, answered⟩
      rw [members_get inside, here]
      exact stands
  · intro position answer slot
    simp [List.getElem?_replicate] at slot

/-- Each answer of a batch was given, together with those of its neighbours, to a call that carried
its item. What such a call brings about is still so in the end if no later call undoes it. -/
theorem run_answered {done : Fin client.topology.count → List ρ → List α → σ → Prop} {items : List ρ}
    (lasting : client.Lasting transport operation items done) {state final : σ} {answers : List α}
    (ran : client.run transport operation items state = (.ok answers, final)) {item : ρ} {answer : α}
    (paired : (item, answer) ∈ items.zip answers) :
    ∃ shard carried found, client.Carries operation items shard carried ∧ done shard carried found final ∧
      (item, answer) ∈ carried.zip found := by
  obtain ⟨position, pair⟩ := List.mem_iff_getElem?.mp paired
  obtain ⟨own, given⟩ := List.getElem?_zip_eq_some.mp pair
  have slot : (answers.map some)[position]? = some (some answer) := by
    rw [List.getElem?_map, given]
    rfl
  obtain ⟨shard, carried, found, carries, holds, index, other, stands, here, answered⟩ :=
    run_justified lasting ran position answer slot
  rw [own] at stands
  cases stands
  have together : (carried.zip found)[index]? = some (item, answer) :=
    List.getElem?_zip_eq_some.mpr ⟨here, answered⟩
  exact ⟨shard, carried, found, carries, holds, List.mem_of_getElem? together⟩

theorem scatter_length (slots : List (Option α)) (positions : List Nat) (answers : List α) :
    (scatter slots positions answers).length = slots.length := by
  induction positions generalizing slots answers with
  | nil => rfl
  | cons position positions ih =>
    cases answers with
    | nil => rfl
    | cons answer answers => rw [scatter, ih, List.length_set]

theorem run_length {items : List ρ} {state final : σ} {answers : List α}
    (ran : client.run transport operation items state = (.ok answers, final)) : answers.length = items.length := by
  have portions (portions : List (Portion client.topology.count)) {slots filled : List (Option α)} {state final : σ}
      (ran : client.runPortions transport operation items portions slots state = (.ok filled, final)) :
      filled.length = slots.length := by
    induction portions generalizing slots state with
    | nil =>
      cases ran
      rfl
    | cons portion portions ih =>
      simp only [runPortions] at ran
      split at ran
      · simp at ran
      · rw [ih ran, scatter_length]
  simp only [run] at ran
  split at ran
  · simp at ran
  · next slots next tried =>
    split at ran
    · next found full =>
      simp only [Prod.mk.injEq, Except.ok.injEq] at ran
      obtain ⟨rfl, rfl⟩ := ran
      have counted := portions _ tried
      rw [filled_eq full, List.length_map, List.length_replicate] at counted
      exact counted
    · simp at ran

end Client

/-- One transport answers as another one does in a state that forgets something. -/
def Forgets {σ τ : Type} (forget : σ → τ) (transport : Transport σ) (plain : Transport τ) : Prop :=
  ∀ endpoint call state, (transport endpoint call state).map id forget = plain endpoint call (forget state)

namespace Failover

variable {σ τ α : Type} {forget : σ → τ} {transport : Transport σ} {plain : Transport τ}

private theorem expect_forgets (forgets : Forgets forget transport plain) (operation : String)
    (content : Answer → Option α) (call : Call) (endpoint : Endpoint) (state : σ) :
    (expect transport operation content call endpoint state).map id forget =
      expect plain operation content call endpoint (forget state) := by
  unfold expect ask
  rw [← forgets]
  generalize transport endpoint call state = pair
  obtain ⟨_ | answer, next⟩ := pair
  · rfl
  · cases answer <;> simp only [Prod.map, id_eq] <;> split <;> rfl

private theorem attempt_forgets {action : Endpoint → σ → Except Error α × σ} {bare : Endpoint → τ → Except Error α × τ}
    (same : ∀ endpoint state, (action endpoint state).map id forget = bare endpoint (forget state))
    (last : Error) (endpoints : List Endpoint) (state : σ) :
    (attempt action last endpoints state).map id forget = attempt bare last endpoints (forget state) := by
  induction endpoints generalizing last state with
  | nil => rfl
  | cons endpoint endpoints ih =>
    simp only [attempt]
    rw [← same]
    generalize action endpoint state = pair
    obtain ⟨_ | _, next⟩ := pair
    · exact ih _ next
    · rfl

end Failover

namespace Client

variable {σ τ ρ α : Type} {client : Client} {operation : Operation ρ α} {forget : σ → τ} {transport : Transport σ}
  {plain : Transport τ}

private theorem runPortion_forgets (forgets : Forgets forget transport plain) (items : List ρ)
    (portion : Portion client.topology.count) (state : σ) :
    (client.runPortion transport operation items portion state).map id forget =
      client.runPortion plain operation items portion (forget state) := by
  simp only [runPortion, Failover.run]
  rw [← Failover.attempt_forgets fun endpoint state =>
    Failover.expect_forgets forgets operation.name operation.content _ endpoint state]
  generalize Failover.attempt _ _ _ state = pair
  obtain ⟨_ | answers, next⟩ := pair
  · rfl
  · simp only [Prod.map, id_eq]
    split <;> rfl

/-- A batch over a transport that forgets something goes as it does over the transport that does not. -/
theorem run_forgets (forgets : Forgets forget transport plain) (items : List ρ) (state : σ) :
    (client.run transport operation items state).map id forget = client.run plain operation items (forget state) := by
  have portions (portions : List (Portion client.topology.count)) (slots : List (Option α)) (state : σ) :
      (client.runPortions transport operation items portions slots state).map id forget =
        client.runPortions plain operation items portions slots (forget state) := by
    induction portions generalizing slots state with
    | nil => rfl
    | cons portion portions ih =>
      simp only [runPortions]
      rw [← runPortion_forgets forgets]
      generalize client.runPortion transport operation items portion state = pair
      obtain ⟨_ | answers, next⟩ := pair
      · rfl
      · exact ih _ next
  simp only [run]
  rw [← portions]
  generalize client.runPortions _ _ _ _ _ state = pair
  obtain ⟨_ | slots, next⟩ := pair
  · rfl
  · simp only [Prod.map, id_eq]
    split <;> rfl

end Client
end ReplicaRing
