import ReplicaRing.Proofs.Asking

/-! How a batch ends. Its results are lined up with it, or it is told what is wrong with the last reply. That a result
is missing is said by holders only: the client passes their words on, but never finds a slot without an answer. -/

namespace ReplicaRing
namespace Client

variable {σ ρ α : Type} {client : Client} {operation : Operation ρ α}

private theorem ne_unfilled {text : String} (ends : text.toList.getLast? ≠ some 'd') : Error.protocol text ≠ unfilled := by
  intro same
  simp only [unfilled, Error.protocol.injEq] at same
  exact ends (by rw [same]; rfl)

private theorem complaint_unfilled {reply : Except NetworkError Answer}
    (same : Failover.complaint operation.name reply = unfilled) :
    reply = .ok (.fault ⟨.protocol, "batch result left unfilled"⟩) := by
  cases reply with
  | error _ => cases same
  | ok answer =>
    have expected (answer : Answer) : Failover.unexpected operation.name answer ≠ unfilled :=
      ne_unfilled (by simp [toString, List.getLast?_cons, List.getLast?_append])
    cases answer with
    | fault fault =>
      obtain ⟨kind, message⟩ := fault
      cases kind with
      | protocol =>
        cases same
        rfl
      | _ => cases same
    | _ => exact absurd same (expected _)

private theorem Turn.ending_unfilled {turn : client.Turn ρ}
    (enough : Failover.Suffices operation.content (client.nodeOf turn.shard).chain turn.replies)
    (ended : turn.ending operation = .error unfilled) :
    turn.replies.getLast? = some (.ok (.fault ⟨.protocol, "batch result left unfilled"⟩)) ∧
      turn.replies.length = (client.nodeOf turn.shard).chain.length := by
  have counted (count : Nat) : miscounted (client.nodeOf turn.shard) count turn.group.length ≠ unfilled :=
    ne_unfilled (by simp [toString, List.getLast?_cons, List.getLast?_append])
  simp only [Turn.ending, Failover.verdict] at ended
  cases last : turn.replies.getLast? with
  | none =>
    -- a chain has an owner, so somebody has replied
    have asked := enough.exhausted fun reply member => by
      rw [List.getLast?_eq_none_iff.mp last] at member
      cases member
    rw [List.getLast?_eq_none_iff.mp last] at asked
    cases asked
  | some reply =>
    rw [last] at ended
    cases taken : Failover.accepted operation.content reply with
    | some found =>
      simp only [taken, Option.elim_some] at ended
      split at ended
      · cases ended
      · exact absurd (Except.error.inj ended) (counted _)
    | none =>
      simp only [taken, Option.elim_none, Except.error.injEq] at ended
      refine ⟨congrArg some (complaint_unfilled ended), enough.exhausted fun other member => ?_⟩
      rw [← List.dropLast_append_getLast? reply last, List.mem_append, List.mem_singleton] at member
      rcases member with earlier | rfl
      · exact enough.passed other earlier
      · exact taken

structure Aligned (client : Client) (transport : Transport σ) (operation : Operation ρ α) (items : List ρ) (state : σ)
    (outcome : Except Error (List α) × σ) : Prop where
  /-- It goes through exactly if all its groups are answered in full, and its results are lined up with it. -/
  answered : ∀ results final, outcome = (.ok results, final) ↔
    ∃ gathered, client.Gathers transport operation (client.groups operation.key items) state gathered final ∧
      client.LinedUp operation items gathered results
  itemwise : ∀ value : ρ → α,
    (∀ shard group, (shard, group) ∈ client.groups operation.key items →
      ∀ endpoint ∈ (client.nodeOf shard).chain, ∀ earlier,
        Failover.accepted operation.content (transport endpoint (operation.call (client.nodeOf shard) group) earlier).1 =
          some (group.map value)) →
    outcome.1 = .ok (items.map value)
  /-- It is told that a result is missing only by the last holder of some group. -/
  relayed : outcome.1 = .error unfilled →
    ∃ turns turn, client.Asks transport operation (client.groups operation.key items) state outcome turns ∧
      turns.getLast? = some turn ∧
      turn.replies.getLast? = some (.ok (.fault ⟨.protocol, "batch result left unfilled"⟩)) ∧
      turn.replies.length = (client.nodeOf turn.shard).chain.length

theorem run_aligned (client : Client) (transport : Transport σ) (operation : Operation ρ α) (items : List ρ) (state : σ) :
    client.Aligned transport operation items state (client.run transport operation items state) where
  answered _ _ := run_ok_iff
  itemwise value replies := by
    obtain ⟨final, gathers⟩ := exists_gathers value replies state
    rw [run_ok_iff.mpr ⟨_, gathers, linedUp_map value⟩]
  relayed failed := by
    obtain ⟨turns, asks⟩ := client.run_asks transport operation items state
    obtain ⟨turn, last, ended⟩ := (asks.stopped unfilled).mp failed
    obtain ⟨said, all⟩ := Turn.ending_unfilled (asks.enough turn (List.mem_of_getLast? last)) ended
    exact ⟨turns, turn, asks, last, said, all⟩

/-- Results are lined up with the batch, whatever the holders reply and however the items are spread over shards. If
each holder answers item by item, so does the batch. That a result is missing is said by holders only, never by
the client. -/
theorem results_line_up (client : Client) (transport : Transport σ) (state : σ) :
    (∀ writes, client.Aligned transport .write writes state (client.write transport writes state)) ∧
      (∀ reads, client.Aligned transport .read reads state (client.read transport reads state)) ∧
      ∀ removals, client.Aligned transport .remove removals state (client.remove transport removals state) :=
  ⟨fun writes => run_aligned client transport .write writes state,
    fun reads => run_aligned client transport .read reads state,
    fun removals => run_aligned client transport .remove removals state⟩

private def pair : Client where
  topology :=
    { nodes := [.solo "a" ⟨⟨"tcp://a:2200"⟩, ⟨"queue://a"⟩⟩, .solo "b" ⟨⟨"tcp://b:2200"⟩, ⟨"queue://b"⟩⟩]
      populated := by simp }
  partitioner := .xxh3

-- The first, third and last of these keys belong to the first machine.
example :
    (pair.remove Script.transport (["k3", "k1", "k5", "k2", "k6"].map fun key => { key, parents := none })
      { outcomes :=
          [ (⟨"tcp://a:2200"⟩, [.ok (.removed [true, false, true])]),
            (⟨"tcp://b:2200"⟩, [.ok (.removed [false, true])]) ]
        calls := [] }).1 = .ok [true, false, false, true, true] := by
  decide +kernel

/-- A machine that answers its first call in the words with which a client would say that a result is missing. -/
private def parrot : Script where
  outcomes := [(⟨"tcp://a:2200"⟩, [.ok (.fault ⟨.protocol, "batch result left unfilled"⟩)])]
  calls := []

/-- The client is given the very error that it never comes to by itself. -/
theorem parrot_relayed :
    ¬ ∀ (client : Client) (script : Script) (reads : List Read),
      (client.read Script.transport reads script).1 ≠ .error unfilled := by
  intro never
  exact never pair parrot [{ key := "k3", version := none }] (by decide +kernel)

end Client
end ReplicaRing
