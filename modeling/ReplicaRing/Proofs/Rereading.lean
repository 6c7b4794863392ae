import ReplicaRing.Proofs.Minting

/-! Whether a write can be read back where it was acknowledged. It can, unless its version was retired
before it was minted, which takes somebody who named a version that did not exist yet. -/

namespace ReplicaRing

namespace Holdings

variable (now : UInt64) (held : Holdings) {writes : List Write} {key : String}

theorem enterAll_other (foreign : writes.filter (·.key = key) = []) :
    (held.enterAll now writes).entry key = held.entry key := by
  refine enterAll_keeps (· = held.entry key) ?_ rfl
  intro write version entry member same
  have absent := List.filter_eq_nil_iff.mp foreign write (mem_of_stamped member)
  simp [same] at absent

theorem enterAll_lone {write : Write} (lone : writes.filter (·.key = write.key) = [write]) :
    ∃ version, (held.enterAll now writes).entry write.key =
        ((held.entry write.key).write write (write.parents.getD []) version now).2 ∧
      ∀ result, (write, result) ∈ writes.zip (held.results now writes) →
        result = ((held.entry write.key).write write (write.parents.getD []) version now).1 := by
  induction writes generalizing held with
  | nil => cases lone
  | cons first writes ih =>
    by_cases own : first.key = write.key
    · simp only [List.filter_cons, own, decide_true, if_true, List.cons.injEq] at lone
      obtain ⟨rfl, rest⟩ := lone
      refine ⟨held.stamp first, ?_, ?_⟩
      · rw [enterAll_cons, enterAll_other now _ rest, enter_entry, if_pos rfl]
      · intro result paired
        simp only [results, List.zip_cons_cons, List.mem_cons] at paired
        rcases paired with here | later
        · cases here
          rfl
        · have again : first ∈ writes.filter (·.key = first.key) := by
            simpa using (List.of_mem_zip later).1
          simp [rest] at again
    · simp only [List.filter_cons, own, decide_false, Bool.false_eq_true, if_false] at lone
      have untouched : (held.enter now first).entry write.key = held.entry write.key := by
        rw [enter_entry, if_neg own]
      obtain ⟨version, left, answered⟩ := ih (held.enter now first) lone
      rw [untouched] at left answered
      refine ⟨version, left, ?_⟩
      intro result paired
      simp only [results, List.zip_cons_cons, List.mem_cons] at paired
      rcases paired with here | later
      · cases here
        exact absurd rfl own
      · exact answered result later

end Holdings

namespace Entry

variable {entry : Entry} {write : Write} {parents : List Version} {version granted : Version} {now : UInt64}

theorem stored_mem_read (fresh : ¬ entry.Retired version)
    (accepted : (entry.write write parents version now).1.version = some granted)
    (lasting : write.expiresAt.all (now < ·) = true) :
    stored write parents version now ∈ (entry.write write parents version now).2.read none now := by
  have present : (stored write parents version now).isExpired now = false := by
    cases limit : write.expiresAt with
    | none => simp [Value.isExpired, stored, limit]
    | some moment => simpa [Value.isExpired, stored, limit] using lasting
  rcases write_cases entry write parents version now with ⟨retired, _⟩ | ⟨_, _, _, same⟩ | ⟨_, _, same⟩
  · exact absurd retired fresh
  · rw [same] at accepted
    cases accepted
  · rw [same]
    exact List.mem_filter.mpr ⟨mem_unexpired.mpr ⟨mem_granted.mpr (Or.inr rfl), present⟩, rfl⟩

end Entry

/-- A server since its start, with the batches that it took. Calls and mail come in any order and from anybody. -/
inductive Server.Lived (endpoint : Endpoint) (topology : Topology) (id : StoreId) : Server → List Deed → Prop where
  | start {server : Server} (started : Server.start endpoint topology (.fresh id) = .ok server) :
      Lived endpoint topology id server []
  | call {server : Server} {deeds : List Deed} (now : UInt64) (asked : Call)
      (before : Lived endpoint topology id server deeds) :
      Lived endpoint topology id (server.answer .never now asked).server
        (deeds ++ (asked.batch.bind fun batch => server.deed now batch.1 batch.2).toList)
  | mail {server : Server} {deeds : List Deed} (now : UInt64) (message : Message)
      (before : Lived endpoint topology id server deeds) :
      Lived endpoint topology id (server.receive .never now message).server
        (deeds ++ (server.deed now .peer message).toList)

namespace Server

variable {server : Server} {now : UInt64} {origin : Origin} {message : Message} {key : String} {version : Version}

theorem handle_retires_only (retired : ((server.handle now origin message).server.holdings.entry key).Retired version) :
    (server.holdings.entry key).Retired version ∨
      ∃ deed ∈ (server.deed now origin message).toList, deed.Names key version := by
  cases passed : accepts origin message with
  | false =>
    rw [server.handle_refused now passed] at retired
    exact Or.inl retired
  | true =>
    obtain ⟨store, changed, shape⟩ := server.handle_accepted now passed
    rw [shape, holdings, changed] at retired
    rw [deed_accepted passed]
    let taken : Deed := { here := server.here, origin, now, before := server.holdings, message }
    exact (taken.retires_only retired).imp_right fun names => ⟨taken, List.mem_singleton.mpr rfl, names⟩

namespace Lived

variable {endpoint : Endpoint} {topology : Topology} {id : StoreId} {deeds : List Deed}

theorem retired_named (lived : Lived endpoint topology id server deeds)
    (retired : (server.holdings.entry key).Retired version) : ∃ deed ∈ deeds, deed.Names key version := by
  have grown {earlier later : List Deed} (named : ∃ deed ∈ earlier, deed.Names key version) :
      ∃ deed ∈ earlier ++ later, deed.Names key version := by
    obtain ⟨deed, noted, names⟩ := named
    exact ⟨deed, List.mem_append_left _ noted, names⟩
  induction lived with
  | @start server started =>
    rw [start_holdings started, Store.holdings_fresh] at retired
    exact absurd retired (Entry.vacant_not_retired version)
  | @call server deeds now asked before ih =>
    cases sent : asked.batch with
    | none =>
      rw [(server.answer_idle now sent).1] at retired
      exact grown (ih retired)
    | some batch =>
      obtain ⟨origin, message⟩ := batch
      rw [(server.answer_batch now sent).1] at retired
      rcases handle_retires_only retired with old | ⟨deed, noted, names⟩
      · exact grown (ih old)
      · exact ⟨deed, List.mem_append_right _ noted, names⟩
  | @mail server deeds now message before ih =>
    rw [receive_eq_handle] at retired
    rcases handle_retires_only retired with old | ⟨deed, noted, names⟩
    · exact grown (ih old)
    · exact ⟨deed, List.mem_append_right _ noted, names⟩

/-- An acknowledged write is read back at once, if it is the only one of its key in its batch and has not
expired, and if its version was not retired before it was minted. Otherwise the read finds what it would
have found before, and some batch had named the version. -/
theorem acknowledged_write_read_back (lived : Lived endpoint topology id server deeds) (now : UInt64) (destination : Node)
    {writes : List Write} {results : List Written}
    (answered : (server.write .never now (.client destination) writes).answer = .ok results) {write : Write}
    (lone : writes.filter (·.key = write.key) = [write]) (lasting : write.expiresAt.all (now < ·) = true)
    {result : Written} (paired : (write, result) ∈ writes.zip results) (acknowledged : result.version = some version) :
    ∃ found, ((server.write .never now (.client destination) writes).server.read .never now
        [{ key := write.key, version := none }]).answer = .ok [found] ∧
      (¬ (server.store.table.entry write.key).Retired version →
        ∃ value ∈ found, value.version = version ∧ value.data = write.data) ∧
      ((server.store.table.entry write.key).Retired version →
        found = (server.store.table.entry write.key).read none now ∧ ∃ deed ∈ deeds, deed.Names write.key version) := by
  cases passed : accepts (.client destination) (.writes writes) with
  | false =>
    have unsound : ¬ ∀ write ∈ writes, checkWrite (.client destination) write = .ok () :=
      fun sound => Bool.false_ne_true (passed.symm.trans (accepts_writes.mpr sound))
    obtain ⟨refusal, shape⟩ := server.write_refused now unsound
    rw [shape] at answered
    cases answered
  | true =>
    obtain ⟨store, changed, shape⟩ := server.write_accepted now (accepts_writes.mp passed)
    rw [shape] at answered
    cases answered
    obtain ⟨stamp, left, own⟩ := Holdings.enterAll_lone now server.holdings lone
    rw [own result paired] at acknowledged
    obtain rfl := Entry.write_version_eq acknowledged
    have after : store.table.entry write.key =
        ((server.store.table.entry write.key).write write (write.parents.getD []) version now).2 :=
      (congrArg (·.entry write.key) changed).trans left
    obtain ⟨_, _, read⟩ := ({ server with store } : Server).read_answered now [{ key := write.key, version := none }]
    refine ⟨(store.table.entry write.key).read none now, ?_, ?_, ?_⟩
    · rw [shape, read]
      rfl
    · intro fresh
      refine ⟨Entry.stored write (write.parents.getD []) version now, ?_, rfl, rfl⟩
      rw [after]
      exact Entry.stored_mem_read fresh acknowledged lasting
    · intro retired
      rw [after, Entry.write_late retired]
      exact ⟨rfl, lived.retired_named retired⟩

/-- The first machine of a small ring. A client has it remove a version of a key that it has not minted yet. -/
def forestalled : Server :=
  (({ name := "a", here := ⟨⟨"tcp://a"⟩, ⟨"queue://a"⟩⟩, topology := Ring.trio.topology
      store := .fresh (.ofName "a") } : Server).answer .never 0
    (.remove (.client (Ring.trio.node ⟨0, by decide⟩))
      [{ key := "k3", parents := some [{ store := .ofName "a", number := 1 }] }])).server

private theorem forestalled_lived :
    ∃ deeds, Lived ⟨"tcp://a"⟩ Ring.trio.topology (.ofName "a") forestalled deeds := by
  refine ⟨_, .call 0 _ (.start ?_)⟩
  have found := Ring.trio.nodeAt_sync ⟨0, by decide⟩
  rw [Server.start, show (⟨"tcp://a"⟩ : Endpoint) = (Ring.trio.address ⟨0, by decide⟩).sync from rfl, found]
  rfl

theorem forestalled_write_vanishes :
    (∃ deeds, Lived ⟨"tcp://a"⟩ Ring.trio.topology (.ofName "a") forestalled deeds) ∧
      (forestalled.write .never 0 (.client (Ring.trio.node ⟨0, by decide⟩)) [.lasting "k3" [1] []]).answer =
        .ok [{ version := some { store := .ofName "a", number := 1 }, conflict := false }] ∧
      ((forestalled.write .never 0 (.client (Ring.trio.node ⟨0, by decide⟩)) [.lasting "k3" [1] []]).server.read .never 0
        [{ key := "k3", version := none }]).answer = .ok [[]] :=
  ⟨forestalled_lived, by decide +kernel, by decide +kernel⟩

theorem forestalled_other_read_back :
    ∃ found, ((forestalled.write .never 0 (.client (Ring.trio.node ⟨0, by decide⟩))
        [.lasting "k3" [1] [], .lasting "k4" [2] []]).server.read .never 0 [{ key := "k4", version := none }]).answer =
          .ok [found] ∧
      ∃ value ∈ found, value.version = { store := .ofName "a", number := 2 } ∧ value.data = [2] := by
  obtain ⟨deeds, lived⟩ := forestalled_lived
  have answered : (forestalled.write .never 0 (.client (Ring.trio.node ⟨0, by decide⟩))
      [.lasting "k3" [1] [], .lasting "k4" [2] []]).answer =
        .ok [{ version := some { store := .ofName "a", number := 1 }, conflict := false },
          { version := some { store := .ofName "a", number := 2 }, conflict := false }] := by decide +kernel
  have lone : [Write.lasting "k3" [1] [], .lasting "k4" [2] []].filter (·.key = (Write.lasting "k4" [2] []).key) =
      [.lasting "k4" [2] []] := by decide +kernel
  obtain ⟨found, read, fresh, _⟩ := lived.acknowledged_write_read_back 0 (Ring.trio.node ⟨0, by decide⟩) answered
    lone rfl (List.mem_cons_of_mem _ List.mem_cons_self) rfl
  exact ⟨found, read, fresh (by decide +kernel)⟩

end Lived
end Server
end ReplicaRing
