import ReplicaRing.Proofs.Committing

/-! What a holder tells others of a batch that it has committed. Of writes it tells those that have got a version, and
of removals all; everybody who is to be told gets the same letter, and can take in what it says. -/

namespace ReplicaRing.Server

/-- The writes that have got a version, in their order, each with the version that it has got and otherwise as it
came. -/
def accepted (writes : List Write) (results : List Written) : List Write :=
  (writes.zip results).filterMap fun (write, result) =>
    result.version.map fun version => { write with assigned := some version }

theorem copies_eq_accepted (writes : List Write) (results : List Written) :
    copies writes results = accepted writes results := by
  induction writes generalizing results with
  | nil => rfl
  | cons write writes ih =>
    cases results with
    | nil => rfl
    | cons result results =>
      simp only [copies, accepted, List.zip_cons_cons, List.filterMap_cons]
      cases result.version with
      | none => exact ih results
      | some version => exact congrArg (List.cons _) (ih results)

theorem accepted_sound {writes : List Write} (results : List Written) (sound : ∀ write ∈ writes, write.Sound) :
    ∀ copy ∈ accepted writes results, copy.Sound := by
  intro copy member
  obtain ⟨⟨write, result⟩, paired, made⟩ := List.mem_filterMap.mp member
  obtain ⟨version, _, rfl⟩ := Option.map_eq_some_iff.mp made
  exact sound write (List.of_mem_zip paired).1

theorem accepted_ne_nil {writes : List Write} {results : List Written} (counted : results.length = writes.length) :
    accepted writes results ≠ [] ↔ ∃ result ∈ results, result.version.isSome := by
  have second : (writes.zip results).map (·.2) = results := List.map_snd_zip (Nat.le_of_eq counted)
  have untold : accepted writes results = [] ↔ ∀ result ∈ (writes.zip results).map (·.2), result.version = none := by
    simp only [accepted, List.filterMap_eq_nil_iff, List.forall_mem_map, Option.map_eq_none_iff]
  rw [ne_eq, untold, second]
  simp [Option.isSome_iff_ne_none]

structure TakesIn (receiver : Server) (now : UInt64) (message : Message) : Prop where
  valid : accepts .peer message = true
  written : ∀ writes, message = .writes writes →
    (receiver.write .never now .peer writes).answer = .ok (receiver.holdings.results now writes)
  removed : ∀ removals, message = .removals removals →
    (receiver.remove .never .peer removals).answer = .ok (receiver.holdings.struck removals)
  held : (receiver.receive .never now message).server.holdings = receiver.holdings.take now message
  quiet : (receiver.receive .never now message).mail = []

theorem takesIn_of_sound (receiver : Server) (now : UInt64) {message : Message} (sound : message.Sound) :
    receiver.TakesIn now message := by
  have valid : accepts .peer message = true := accepts_iff.mpr ⟨sound, fun client => by cases client⟩
  obtain ⟨store, held, shape⟩ := receiver.handle_accepted now valid
  refine ⟨valid, ?_, ?_, ?_, ?_⟩
  · rintro writes rfl
    obtain ⟨_, _, done⟩ := receiver.write_accepted now (accepts_writes.mp valid)
    rw [done]
  · rintro removals rfl
    obtain ⟨_, _, done⟩ := receiver.remove_accepted .peer (accepts_removals.mp valid)
    rw [done]
  · rw [receive_eq_handle, shape]
    exact held
  · rw [receive_eq_handle]
    exact receiver.handle_quiet now valid

/-- The letters about a batch: one for each target of the plan, in its order, all with the same message; and none if
the plan has no target or there is nothing to tell. They are offered one by one, whatever becomes of those before,
and every holder takes them in. -/
structure Forwards (plan : Dispatch) (told : Prop) (message : Message) (mail : List Letter) : Prop where
  sent : plan.targets ≠ [] → told → mail = plan.targets.map fun target => { target, message }
  silent : ¬ (plan.targets ≠ [] ∧ told) → mail = []
  offered : ∀ {σ : Type} (post : Post σ) state,
    (post.logged.handAll mail (state, [])).1 = post.handAll mail state ∧
      (post.logged.handAll mail (state, [])).2.map (·.1) = mail
  taken : ∀ letter ∈ mail, ∀ (receiver : Server) now, receiver.TakesIn now letter.message

theorem letters_forwards (plan : Dispatch) {told : Prop} {message : Message} (tells : ¬ message.isEmpty ↔ told)
    (sound : message.Sound) : Forwards plan told message (letters plan message) where
  sent := by
    intro _ news
    rw [letters, if_neg (tells.mpr news)]
  silent := by
    intro nothing
    by_cases news : told
    · have nobody : plan.targets = [] := by
        by_contra somebody
        exact nothing ⟨somebody, news⟩
      rw [letters, nobody, List.map_nil, ite_self]
    · rw [letters, if_pos (not_not.mp (tells.not.mpr news))]
  offered post state := post.handAll_logged _ state []
  taken := by
    intro letter member receiver now
    have same : letter.message = message := by
      unfold letters at member
      split at member
      · cases member
      · obtain ⟨target, _, rfl⟩ := List.mem_map.mp member
        rfl
    exact same ▸ receiver.takesIn_of_sound now sound

/-- If writes are answered with results, each target of the plan is told of those that have got a version, under that
version, in their order and without any change. If removals are answered, all of them are told. -/
theorem forwards_accepted (server : Server) (outage : Outage) (now : UInt64) (origin : Origin) :
    (∀ writes results, (server.write outage now origin writes).answer = .ok results →
      results.length = writes.length ∧
        Forwards (.of origin server.here) (∃ result ∈ results, result.version.isSome)
          (.writes (accepted writes results)) (server.write outage now origin writes).mail) ∧
      ∀ removals flags, (server.remove outage origin removals).answer = .ok flags →
        Forwards (.of origin server.here) (removals ≠ []) (.removals removals)
          (server.remove outage origin removals).mail := by
  constructor
  · intro writes results answered
    have whole := server.write_all_or_nothing outage now origin writes
    obtain ⟨counted, rfl, _, mail⟩ := whole.done results answered
    have valid := (whole.done_iff.mp ⟨_, answered⟩).1
    refine ⟨counted, ?_⟩
    rw [mail, copies_eq_accepted]
    apply letters_forwards
    · rw [← accepted_ne_nil counted]
      simp [Message.isEmpty, Message.length]
    · refine ⟨?_, fun _ member => absurd member List.not_mem_nil⟩
      exact accepted_sound _ fun write member => (checkWrite_ok.mp (valid write member)).1
  · intro removals flags answered
    have whole := server.remove_all_or_nothing outage origin removals
    obtain ⟨_, _, _, mail⟩ := whole.done flags answered
    have valid := (whole.done_iff.mp ⟨_, answered⟩).1
    rw [mail]
    apply letters_forwards
    · simp [Message.isEmpty, Message.length]
    · refine ⟨fun _ member => absurd member List.not_mem_nil, ?_⟩
      exact fun removal member => checkRemoval_ok.mp (valid removal member)

private def standIn : Server :=
  (({ name := "b", here := ⟨⟨"tcp://b"⟩, ⟨"queue://b"⟩⟩, topology := Ring.trio.topology
      store := .fresh (.ofName "b") } : Server).receive .never 0
    (.writes [{ Write.lasting "k3" [1] [] with assigned := some { store := .ofName "a", number := 1 } }])).server

private def mixed : List Write :=
  [{ Write.lasting "k3" [2] [] with optimistic := true }, .lasting "k4" [3] [],
    .lasting "k3" [4] [{ store := .ofName "a", number := 1 }]]

private def strays : List Removal :=
  [{ key := "k3", parents := some [{ store := .ofName "a", number := 1 }] }, { key := "k4", parents := some [] }]

/-- The other two machines are told of the second and the third write, and of both removals. -/
theorem mixed_forwarded :
    (standIn.write .never 0 (.client Ring.trio.topology.first) mixed).mail =
        [⟨"queue://a"⟩, ⟨"queue://c"⟩].map (fun target =>
          { target
            message := .writes
              [{ Write.lasting "k4" [3] [] with assigned := some { store := .ofName "b", number := 2 } },
                { Write.lasting "k3" [4] [{ store := .ofName "a", number := 1 }] with
                  assigned := some { store := .ofName "b", number := 3 } }] }) ∧
      (standIn.remove .never (.client Ring.trio.topology.first) strays).mail =
        [⟨"queue://a"⟩, ⟨"queue://c"⟩].map fun target => { target, message := .removals strays } := by
  have answered : (standIn.write .never 0 (.client Ring.trio.topology.first) mixed).answer =
      .ok [{ version := none, conflict := true },
        { version := some { store := .ofName "b", number := 2 }, conflict := false },
        { version := some { store := .ofName "b", number := 3 }, conflict := false }] := by decide +kernel
  have flagged : (standIn.remove .never (.client Ring.trio.topology.first) strays).answer =
      .ok [true, false] := by decide +kernel
  obtain ⟨written, removed⟩ := standIn.forwards_accepted .never 0 (.client Ring.trio.topology.first)
  constructor
  · rw [(written mixed _ answered).2.sent (by decide +kernel) (by decide)]
    decide +kernel
  · rw [(removed strays _ flagged).sent (by decide +kernel) (by decide)]
    decide +kernel

end ReplicaRing.Server
