import ReplicaRing.Proofs.Reordering
import ReplicaRing.Proofs.Serving

/-! Copies that come after the copies they supersede. If nothing is named before it has come, no copy is dropped
before it has retired its parents, and what is left is what was never named. -/

namespace ReplicaRing

/-- A version that comes at all has come before it is named. -/
def Causal (calls : List (UInt64 × StoreCall)) : Prop :=
  ∀ front call back, calls = front ++ call :: back → ∀ key version, call.2.Names key version →
    (∃ other ∈ calls, other.2.Brings key version) → ∃ other ∈ front, other.2.Brings key version

/-- A version of a key that came, and that nothing supersedes or removes. -/
def Unsuperseded (calls : List (UInt64 × StoreCall)) (key : String) (version : Version) : Prop :=
  (∃ call ∈ calls, call.2.Brings key version) ∧ ¬ ∃ call ∈ calls, call.2.Names key version

instance (calls : List (UInt64 × StoreCall)) (key : String) (version : Version) :
    Decidable (Unsuperseded calls key version) :=
  inferInstanceAs (Decidable (_ ∧ ¬ _))

def StoreCall.named : StoreCall → String × List Version
  | write item => (item.key, item.parents.getD [])
  | read item => (item.key, [])
  | remove item => (item.key, item.parents.getD [])

theorem StoreCall.names_iff {call : StoreCall} {key : String} {version : Version} :
    call.Names key version ↔ call.named.1 = key ∧ version ∈ call.named.2 := by
  cases call with
  | write _ => rfl
  | read _ => exact ⟨False.elim, fun named => absurd named.2 List.not_mem_nil⟩
  | remove _ => rfl

instance (calls : List (UInt64 × StoreCall)) : Decidable (Causal calls) :=
  decidable_of_iff
    (∀ index < calls.length, ∀ call ∈ calls[index]?, ∀ version ∈ call.2.named.2,
      (∃ other ∈ calls, other.2.Brings call.2.named.1 version) →
        ∃ other ∈ calls.take index, other.2.Brings call.2.named.1 version) <| by
    constructor
    · rintro punctual front call back rfl key version names brought
      obtain ⟨rfl, named⟩ := StoreCall.names_iff.mp names
      have before := punctual front.length (by simp) call (by simp) version named brought
      rwa [List.take_left] at before
    · intro causal index inside call found version named brought
      obtain ⟨inside, rfl⟩ := List.getElem?_eq_some_iff.mp found
      exact causal (calls.take index) calls[index] (calls.drop (index + 1)) (by simp) _ version
        (StoreCall.names_iff.mpr ⟨rfl, named⟩) brought

theorem StoreCall.Brings.given {call : StoreCall} {key : String} {version : Version} (brings : call.Brings key version) :
    call.given = some version := by
  cases call with
  | write _ => exact brings.2.2
  | read _ => cases brings
  | remove _ => cases brings

namespace Causal

variable {id : StoreId} {calls : List (UInt64 × StoreCall)} {key : String} {version : Version}

theorem punctual (causal : Causal calls) (forwarded : ∀ call ∈ calls, call.2.Forwarded)
    {front back : List (UInt64 × StoreCall)} {call : UInt64 × StoreCall} (split : calls = front ++ call :: back)
    (brings : call.2.Brings key version) (first : ∀ other ∈ front, ¬ other.2.Brings key version) :
    ¬ (((Store.fresh id).commits [front]).table.entry key).Retired version := by
  intro retired
  have before : ∀ other ∈ front, other.2.Forwarded :=
    fun other member => forwarded other (split ▸ List.mem_append_left _ member)
  rw [Store.entry_commits, List.flatten_singleton, Holdings.makeAll_retired id before] at retired
  obtain ⟨earlier, naming, later, rfl, names, _⟩ := retired
  have position : calls = earlier ++ naming :: (later ++ call :: back) := by simpa using split
  have present : call ∈ calls := split ▸ List.mem_append_right _ List.mem_cons_self
  obtain ⟨other, member, already⟩ := causal earlier naming _ position key version names ⟨call, present, brings⟩
  exact first other (List.mem_append_left _ member) already

/-- The first copy of a write retires what the write names, so that it does not matter if later ones are dropped. -/
theorem not_stranded (causal : Causal calls) (forwarded : ∀ call ∈ calls, call.2.Forwarded)
    (identified : ∀ call ∈ calls, ∀ other ∈ calls,
      call.2.given.isSome = true → call.2.given = other.2.given → call.2 = other.2) :
    ¬ Stranded id calls key version := by
  rintro ⟨_, ⟨naming, member, names⟩, dropped⟩
  obtain ⟨_, _, somewhere⟩ := List.append_of_mem member
  obtain ⟨late, brings, _⟩ := dropped _ naming _ somewhere names
  have comes : (calls.find? (·.2.Brings key late)).isSome :=
    List.find?_isSome.mpr ⟨naming, member, decide_eq_true brings⟩
  obtain ⟨call, found⟩ := Option.isSome_iff_exists.mp comes
  obtain ⟨opens, front, back, split, others⟩ := List.find?_eq_some_iff_append.mp found
  have opening : call.2.Brings key late := of_decide_eq_true opens
  have first : ∀ other ∈ front, ¬ other.2.Brings key late := by simpa using others
  have same : call.2 = naming.2 := by
    apply identified call (split ▸ List.mem_append_right _ List.mem_cons_self) naming member
    · rw [opening.given]
      rfl
    · rw [opening.given, brings.given]
  obtain ⟨stamp, carried, retired⟩ := dropped front call back split (same ▸ names)
  obtain rfl : stamp = late := Option.some.inj (carried.given.symm.trans opening.given)
  exact causal.punctual forwarded split opening first retired

end Causal

/-- The calls that a server makes of mail at some clock reading. Of mail that it turns away it makes none. -/
def Message.calls (now : UInt64) (message : Message) : List (UInt64 × StoreCall) :=
  if Server.accepts .peer message then
    match message with
    | writes items => items.map fun write => (now, .write write)
    | removals items => items.map fun removal => (now, .remove removal)
  else []

namespace Holdings

theorem makeAll_writes (now : UInt64) (held : Holdings) {writes : List Write}
    (validated : ∀ write ∈ writes, write.parents.isSome) :
    held.makeAll (writes.map fun write => (now, .write write)) = held.enterAll now writes := by
  induction writes generalizing held with
  | nil => rfl
  | cons write writes ih =>
    obtain ⟨first, rest⟩ := List.forall_mem_cons.mp validated
    rw [List.map_cons, makeAll_cons, enterAll_cons, ih _ rest, make, if_pos first]

theorem makeAll_removals (now : UInt64) (held : Holdings) {removals : List Removal}
    (validated : ∀ removal ∈ removals, removal.parents.isSome) :
    held.makeAll (removals.map fun removal => (now, .remove removal)) = held.strikeAll removals := by
  induction removals generalizing held with
  | nil => rfl
  | cons removal removals ih =>
    obtain ⟨first, rest⟩ := List.forall_mem_cons.mp validated
    rw [List.map_cons, makeAll_cons, strikeAll_cons, ih _ rest, make, if_pos first]

end Holdings

namespace Server

def receives (server : Server) (mail : List (UInt64 × Message)) : Server :=
  mail.foldl (fun server letter => (server.receive .never letter.1 letter.2).server) server

theorem receive_holdings (server : Server) (now : UInt64) (message : Message) :
    (server.receive .never now message).server.holdings = server.holdings.makeAll (message.calls now) := by
  rw [receive_eq_handle]
  unfold Message.calls
  cases passed : accepts .peer message with
  | false =>
    rw [server.handle_refused now passed]
    rfl
  | true =>
    obtain ⟨store, changed, shape⟩ := server.handle_accepted now passed
    obtain ⟨sound, _⟩ := accepts_iff.mp passed
    rw [shape, holdings, changed, if_pos rfl]
    cases message with
    | writes writes =>
      exact (Holdings.makeAll_writes now _ fun write member => (sound.1 write member).2).symm
    | removals removals =>
      exact (Holdings.makeAll_removals now _ fun removal member => (sound.2 removal member).2).symm

theorem receives_holdings (server : Server) (mail : List (UInt64 × Message)) :
    (server.receives mail).holdings =
      server.holdings.makeAll (mail.map fun letter => letter.2.calls letter.1).flatten := by
  induction mail generalizing server with
  | nil => rfl
  | cons letter mail ih =>
    rw [List.map_cons, List.flatten_cons, Holdings.makeAll_append, ← receive_holdings]
    exact ih _

theorem receives_entry (server : Server) {id : StoreId} (fresh : server.store = .fresh id)
    (mail : List (UInt64 × Message)) :
    (server.receives mail).store.table.entry =
      ((Store.fresh id).commits (mail.map fun letter => letter.2.calls letter.1)).table.entry := by
  have held : server.holdings = Holdings.fresh id := by
    rw [holdings, fresh, Store.holdings_fresh]
  rw [Store.entry_commits, ← held, ← receives_holdings]
  rfl

end Server

/-- If copies come after those that they supersede, the live versions in the end are those that came and that
nothing superseded or removed: at a store, and at a server that gets them by mail. -/
theorem causal_delivery_live (id : StoreId) {batches : List (List (UInt64 × StoreCall))}
    (forwarded : ∀ call ∈ batches.flatten, call.2.Forwarded)
    (identified : ∀ call ∈ batches.flatten, ∀ other ∈ batches.flatten,
      call.2.given.isSome = true → call.2.given = other.2.given → call.2 = other.2)
    (causal : Causal batches.flatten) (key : String) (version : Version) :
    ((((Store.fresh id).commits batches).table.entry key).Live version ↔
        Unsuperseded batches.flatten key version) ∧
      ∀ (server : Server) (mail : List (UInt64 × Message)), server.store = .fresh id →
        (mail.map fun letter => letter.2.calls letter.1) = batches →
        (((server.receives mail).store.table.entry key).Live version ↔
          Unsuperseded batches.flatten key version) := by
  have live : (((Store.fresh id).commits batches).table.entry key).Live version ↔
      Unsuperseded batches.flatten key version := by
    rw [Store.entry_commits_flatten, Stranded.live_iff forwarded]
    exact or_iff_left (causal.not_stranded forwarded identified)
  refine ⟨live, ?_⟩
  rintro server mail fresh rfl
  rw [server.receives_entry fresh]
  exact live

private def numbered (number : UInt64) : Version :=
  ⟨⟨0⟩, number⟩

private def copied (number : UInt64) (parents : List UInt64) : Write where
  key := "k"
  data := []
  parents := some (parents.map numbered)
  expiresAt := none
  optimistic := false
  assigned := some (numbered number)

/-- Two writes, a third in the place of both, and two more in the place of the third, which is also removed. Some
copies come twice, one of them again when it is superseded. -/
def merging : List (UInt64 × Message) :=
  [(1, .writes [copied 1 [], copied 2 []]),
    (2, .writes [copied 3 [1, 2], copied 1 []]),
    (3, .removals [{ key := "k", parents := some ([3, 9].map numbered) }]),
    (4, .writes [copied 3 [1, 2], copied 4 [3], copied 5 [3]])]

private def listener : Server where
  name := "b"
  here := ⟨⟨"tcp://b"⟩, ⟨"queue://b"⟩⟩
  topology := { nodes := [.solo "b" ⟨⟨"tcp://b"⟩, ⟨"queue://b"⟩⟩], populated := nofun }
  store := .fresh ⟨1⟩

/-- The last two writes are left. -/
theorem merging_live :
    (∀ version ∈ [4, 5].map numbered, ((listener.receives merging).store.table.entry "k").Live version) ∧
      ∀ version ∈ [1, 2, 3, 9].map numbered, ¬ ((listener.receives merging).store.table.entry "k").Live version := by
  have causal : Causal (merging.map fun letter => letter.2.calls letter.1).flatten := by decide +kernel
  have live (version : Version) : ((listener.receives merging).store.table.entry "k").Live version ↔
      Unsuperseded (merging.map fun letter => letter.2.calls letter.1).flatten "k" version :=
    (causal_delivery_live ⟨1⟩ (by decide +kernel) (by decide +kernel) causal "k" version).2 listener merging rfl rfl
  simp only [live]
  decide +kernel

end ReplicaRing
