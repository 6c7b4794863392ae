import ReplicaRing.Proofs.Aligning
import ReplicaRing.Routing.Script

/-! Which calls a client makes. The groups of a batch have their turns one after the other: in its turn a group is sent
to the holders of its shard, in order, up to the first whose reply is accepted. The turn after it comes only if that
reply has as many results as the group; with the first turn that ends otherwise the batch ends, too. -/

namespace ReplicaRing

private theorem mem_dropLast_cons {α : Type} {first other : α} {rest : List α}
    (member : other ∈ (first :: rest).dropLast) : other = first ∨ other ∈ rest.dropLast := by
  cases rest with
  | nil => cases member
  | cons _ _ => exact List.mem_cons.mp member

/-- What some calls are replied when they are made one after the other. -/
def Transport.makes {σ : Type} (transport : Transport σ) : List Recorded → σ → List (Except NetworkError Answer) × σ
  | [], state => ([], state)
  | asked :: rest, state =>
    let (reply, next) := transport asked.target asked.call state
    let (replies, final) := makes transport rest next
    (reply :: replies, final)

namespace Transport

variable {σ : Type} {transport : Transport σ}

theorem makes_append (first rest : List Recorded) (state : σ) :
    transport.makes (first ++ rest) state =
      ((transport.makes first state).1 ++ (transport.makes rest (transport.makes first state).2).1,
        (transport.makes rest (transport.makes first state).2).2) := by
  induction first generalizing state with
  | nil => rfl
  | cons asked first ih => simp only [List.cons_append, makes, ih]

def Notes (transport : Transport σ) (log : σ → List Recorded) : Prop :=
  ∀ (target : Endpoint) (call : Call) (state : σ), log (transport target call state).2 = log state ++ [⟨target, call⟩]

theorem Notes.makes {log : σ → List Recorded} (notes : transport.Notes log) (asked : List Recorded) (state : σ) :
    log (transport.makes asked state).2 = log state ++ asked := by
  induction asked generalizing state with
  | nil => exact (List.append_nil _).symm
  | cons first asked ih =>
    have rest := ih (transport first.target first.call state).2
    rw [notes first.target, List.append_assoc] at rest
    exact rest

end Transport

theorem Script.transport_notes : transport.Notes Script.calls := fun _ _ _ => rfl

namespace Failover

variable {σ α : Type}

def verdict (operation : String) (content : Answer → Option α) (nobody : Error)
    (replies : List (Except NetworkError Answer)) : Except Error α :=
  match replies.getLast? with
  | none => .error nobody
  | some reply => (accepted content reply).elim (.error (complaint operation reply)) .ok

/-- So many endpoints have replied that one reply is accepted, the last, or else that nobody is left to ask. -/
structure Suffices (content : Answer → Option α) (endpoints : List Endpoint)
    (replies : List (Except NetworkError Answer)) : Prop where
  within : replies.length ≤ endpoints.length
  passed : ∀ reply ∈ replies.dropLast, accepted content reply = none
  exhausted : (∀ reply ∈ replies, accepted content reply = none) → replies.length = endpoints.length

theorem attempt_replies (transport : Transport σ) (operation : String) (content : Answer → Option α) (call : Call)
    (nobody : Error) (endpoints : List Endpoint) (state : σ) :
    ∃ replies, Suffices content endpoints replies ∧
      transport.makes ((endpoints.take replies.length).map fun target => { target, call }) state =
        (replies, (attempt (expect transport operation content call) nobody endpoints state).2) ∧
      (attempt (expect transport operation content call) nobody endpoints state).1 =
        verdict operation content nobody replies := by
  induction endpoints generalizing nobody state with
  | nil => exact ⟨[], ⟨Nat.le_refl 0, fun _ member => absurd member List.not_mem_nil, fun _ => rfl⟩, rfl, rfl⟩
  | cons endpoint endpoints ih =>
    cases asked : transport endpoint call state with
    | mk reply next =>
      cases taken : accepted content reply with
      | some found =>
        refine ⟨[reply], ⟨Nat.le_add_left 1 _, fun _ member => absurd member List.not_mem_nil, ?_⟩, ?_, ?_⟩
        · intro none
          rw [none reply List.mem_cons_self] at taken
          cases taken
        · simp [Transport.makes, asked, attempt, expect_taken asked taken]
        · simp [attempt, expect_taken asked taken, verdict, taken]
      | none =>
        obtain ⟨replies, enough, made, ended⟩ := ih (complaint operation reply) next
        rw [attempt, expect_passed asked taken]
        refine ⟨reply :: replies, ⟨?_, ?_, ?_⟩, ?_, ?_⟩
        · exact Nat.succ_le_succ enough.within
        · intro other member
          rcases mem_dropLast_cons member with rfl | earlier
          · exact taken
          · exact enough.passed other earlier
        · intro none
          exact congrArg Nat.succ (enough.exhausted (List.forall_mem_cons.mp none).2)
        · simp only [List.length_cons, List.take_succ_cons, List.map_cons, Transport.makes, asked, made]
        · rw [ended]
          cases replies with
          | nil => simp [verdict, taken]
          | cons first rest => rw [verdict, verdict, List.getLast?_cons_cons, List.getLast?_cons]

end Failover

namespace Client

variable {σ ρ α β : Type} {client : Client} {transport : Transport σ} {operation : Operation ρ α}

/-- The turn of a group: its shard, its items, and what those holders replied that were asked. -/
structure Turn (client : Client) (ρ : Type) where
  shard : Fin client.topology.count
  group : List ρ
  replies : List (Except NetworkError Answer)

namespace Turn

/-- As many holders have been asked as have replied, all of them the same. -/
def calls (turn : client.Turn ρ) (operation : Operation ρ α) : List Recorded :=
  ((client.nodeOf turn.shard).chain.take turn.replies.length).map fun target =>
    { target, call := operation.call (client.nodeOf turn.shard) turn.group }

def ending (turn : client.Turn ρ) (operation : Operation ρ α) : Except Error (List α) :=
  match Failover.verdict operation.name operation.content (Failover.nobody (client.nodeOf turn.shard)) turn.replies with
  | .error error => .error error
  | .ok found =>
    if found.length = turn.group.length then .ok found
    else .error (miscounted (client.nodeOf turn.shard) found.length turn.group.length)

end Turn

/-- How a batch asks for its groups, turn by turn, and what comes of it. -/
structure Asks (client : Client) (transport : Transport σ) (operation : Operation ρ α)
    (groups : List (Fin client.topology.count × List ρ)) (state : σ) (outcome : Except Error β × σ)
    (turns : List (client.Turn ρ)) : Prop where
  /-- The groups have their turns in order, though not all of them need have one. -/
  ordered : turns.map (fun turn => (turn.shard, turn.group)) <+: groups
  enough : ∀ turn ∈ turns, Failover.Suffices operation.content (client.nodeOf turn.shard).chain turn.replies
  /-- The calls of these turns are made, and no others. -/
  made : transport.makes (turns.flatMap (·.calls operation)) state = (turns.flatMap (·.replies), outcome.2)
  continued : ∀ turn ∈ turns.dropLast, ∃ found, turn.ending operation = .ok found
  stopped : ∀ error, outcome.1 = .error error ↔
    ∃ turn, turns.getLast? = some turn ∧ turn.ending operation = .error error
  finished : (∃ results, outcome.1 = .ok results) ↔
    turns.map (fun turn => (turn.shard, turn.group)) = groups ∧
      ∀ turn ∈ turns, ∃ found, turn.ending operation = .ok found

section Asks

variable {groups : List (Fin client.topology.count × List ρ)} {state between : σ} {turn : client.Turn ρ}

theorem Asks.done (results : β) : client.Asks transport operation [] state (.ok results, state) [] where
  ordered := List.prefix_rfl
  enough _ member := absurd member List.not_mem_nil
  made := rfl
  continued _ member := absurd member List.not_mem_nil
  stopped := by simp
  finished := by simp

theorem Asks.stop {error : Error}
    (enough : Failover.Suffices operation.content (client.nodeOf turn.shard).chain turn.replies)
    (made : transport.makes (turn.calls operation) state = (turn.replies, between))
    (ended : turn.ending operation = .error error) :
    client.Asks transport operation ((turn.shard, turn.group) :: groups) state
      ((.error error, between) : Except Error β × σ) [turn] where
  ordered := List.cons_prefix_cons.mpr ⟨rfl, List.nil_prefix⟩
  enough := List.forall_mem_singleton.mpr enough
  made := by simpa using made
  continued _ member := absurd member List.not_mem_nil
  stopped := by simp [ended]
  finished := by simp [ended]

theorem Asks.next {found : List α} {outcome : Except Error β × σ} {turns : List (client.Turn ρ)}
    (enough : Failover.Suffices operation.content (client.nodeOf turn.shard).chain turn.replies)
    (made : transport.makes (turn.calls operation) state = (turn.replies, between))
    (ended : turn.ending operation = .ok found) (later : client.Asks transport operation groups between outcome turns) :
    client.Asks transport operation ((turn.shard, turn.group) :: groups) state outcome (turn :: turns) where
  ordered := List.cons_prefix_cons.mpr ⟨rfl, later.ordered⟩
  enough := List.forall_mem_cons.mpr ⟨enough, later.enough⟩
  made := by
    rw [List.flatMap_cons, List.flatMap_cons, Transport.makes_append, made, later.made]
  continued other member := by
    rcases mem_dropLast_cons member with rfl | earlier
    · exact ⟨found, ended⟩
    · exact later.continued other earlier
  stopped error := by
    rw [later.stopped]
    cases turns with
    | nil => simp [ended]
    | cons second rest => rw [List.getLast?_cons_cons]
  finished := by
    rw [later.finished]
    simp [ended]

theorem Asks.relabel {γ : Type} {result : Except Error β} {other : Except Error γ} {final : σ}
    {turns : List (client.Turn ρ)}
    (asks : client.Asks transport operation groups state (result, final) turns)
    (same : result.map (fun _ => ()) = other.map fun _ => ()) :
    client.Asks transport operation groups state (other, final) turns where
  ordered := asks.ordered
  enough := asks.enough
  made := asks.made
  continued := asks.continued
  stopped error := by
    rw [← asks.stopped error]
    cases result <;> cases other <;> simp_all [Except.map]
  finished := by
    rw [← asks.finished]
    cases result <;> cases other <;> simp_all [Except.map]

end Asks

theorem runPortion_turn (client : Client) (transport : Transport σ) (operation : Operation ρ α) {items : List ρ}
    {portion : Portion client.topology.count}
    (counted : (members items portion.positions).length = portion.positions.length) (state : σ) :
    ∃ turn : client.Turn ρ, turn.shard = portion.shard ∧ turn.group = members items portion.positions ∧
      Failover.Suffices operation.content (client.nodeOf turn.shard).chain turn.replies ∧
      transport.makes (turn.calls operation) state =
        (turn.replies, (client.runPortion transport operation items portion state).2) ∧
      (client.runPortion transport operation items portion state).1 = turn.ending operation := by
  obtain ⟨replies, enough, made, ended⟩ := Failover.attempt_replies transport operation.name operation.content
    (operation.call (client.nodeOf portion.shard) (members items portion.positions))
    (Failover.nobody (client.nodeOf portion.shard)) (client.nodeOf portion.shard).chain state
  refine ⟨⟨portion.shard, members items portion.positions, replies⟩, rfl, rfl, enough, ?_⟩
  rw [Turn.calls, Turn.ending, made, ← ended]
  simp only [runPortion, Failover.run, nodeOf, counted]
  generalize Failover.attempt _ _ _ state = tried
  obtain ⟨result, next⟩ := tried
  cases result with
  | error _ => exact ⟨rfl, rfl⟩
  | ok _ =>
    simp only
    split
    · exact ⟨rfl, rfl⟩
    · exact ⟨rfl, rfl⟩

theorem runPortions_asks (client : Client) (transport : Transport σ) (operation : Operation ρ α) {items : List ρ}
    {portions : List (Portion client.topology.count)}
    (counted : ∀ portion ∈ portions, (members items portion.positions).length = portion.positions.length)
    (slots : List (Option α)) (state : σ) :
    ∃ turns, client.Asks transport operation
      (portions.map fun portion => (portion.shard, members items portion.positions)) state
      (client.runPortions transport operation items portions slots state) turns := by
  induction portions generalizing slots state with
  | nil => exact ⟨[], .done slots⟩
  | cons portion portions ih =>
    obtain ⟨first, rest⟩ := List.forall_mem_cons.mp counted
    obtain ⟨turn, shard, group, enough, made, ended⟩ := client.runPortion_turn transport operation first state
    rw [List.map_cons, ← shard, ← group]
    simp only [runPortions]
    generalize client.runPortion transport operation items portion state = tried at made ended ⊢
    obtain ⟨result, next⟩ := tried
    cases result with
    | error error => exact ⟨[turn], .stop enough made ended.symm⟩
    | ok found =>
      obtain ⟨turns, later⟩ := ih rest (scatter slots portion.positions found) next
      exact ⟨turn :: turns, .next enough made ended.symm later⟩

theorem run_asks (client : Client) (transport : Transport σ) (operation : Operation ρ α) (items : List ρ)
    (state : σ) : ∃ turns, client.Asks transport operation (client.groups operation.key items) state
      (client.run transport operation items state) turns := by
  obtain ⟨turns, asks⟩ := client.runPortions_asks transport operation
    (fun _ member => members_length member) (List.replicate items.length none) state
  rw [portions_groups] at asks
  refine ⟨turns, ?_⟩
  cases tried : client.runPortions transport operation items (client.portions (items.map operation.key))
      (List.replicate items.length none) state with
  | mk result final =>
    rw [tried] at asks
    cases result with
    | error error =>
      have ran : client.run transport operation items state = (.error error, final) := by
        simp only [run, tried]
      rw [ran]
      exact asks.relabel rfl
    | ok slots =>
      obtain ⟨results, ran⟩ := run_of_portions tried
      rw [ran]
      exact asks.relabel rfl

structure Called (client : Client) (transport : Transport σ) (operation : Operation ρ α) (items : List ρ) (state : σ)
    (outcome : Except Error (List α) × σ) : Prop where
  inTurn : ∃ turns, client.Asks transport operation (client.groups operation.key items) state outcome turns ∧
    ∀ log, transport.Notes log → log outcome.2 = log state ++ turns.flatMap (·.calls operation)
  idle : items = [] → outcome.2 = state

theorem run_called (client : Client) (transport : Transport σ) (operation : Operation ρ α) (items : List ρ)
    (state : σ) : client.Called transport operation items state (client.run transport operation items state) := by
  obtain ⟨turns, asks⟩ := client.run_asks transport operation items state
  refine ⟨⟨turns, asks, ?_⟩, ?_⟩
  · intro log notes
    have noted := notes.makes (turns.flatMap (·.calls operation)) state
    rwa [asks.made] at noted
  · rintro rfl
    rfl

theorem script_calls (client : Client) (operation : Operation ρ α) (items : List ρ) (script : Script) :
    ∃ turns, client.Asks Script.transport operation (client.groups operation.key items) script
        (client.run Script.transport operation items script) turns ∧
      (client.run Script.transport operation items script).2.calls =
        script.calls ++ turns.flatMap (·.calls operation) := by
  obtain ⟨turns, asks, noted⟩ := (run_called client Script.transport operation items script).inTurn
  exact ⟨turns, asks, noted Script.calls Script.transport_notes⟩

end Client
end ReplicaRing
