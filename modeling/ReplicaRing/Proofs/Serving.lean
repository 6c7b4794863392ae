import ReplicaRing.Proofs.Holdings
import ReplicaRing.Routing.Client
import ReplicaRing.Server.Basic

/-! What a server's answers do to its holdings and which letters they give rise to, for a store
in good order. A batch is turned away before it reaches the store, or done in full. -/

namespace ReplicaRing

/-- A write that a holder takes from another holder. -/
def Write.Sound (write : Write) : Prop :=
  isReserved write.key = false ∧ write.parents.isSome = true

def Removal.Sound (removal : Removal) : Prop :=
  isReserved removal.key = false ∧ removal.parents.isSome = true

namespace Message

def written : Message → List Write
  | writes items => items
  | removals _ => []

def removed : Message → List Removal
  | writes _ => []
  | removals items => items

/-- The keys a message is about. -/
def keys (message : Message) : List String :=
  message.written.map (·.key) ++ message.removed.map (·.key)

theorem key_written {message : Message} {write : Write} (member : write ∈ message.written) : write.key ∈ message.keys :=
  List.mem_append_left _ (List.mem_map_of_mem member)

theorem key_removed {message : Message} {removal : Removal} (member : removal ∈ message.removed) :
    removal.key ∈ message.keys :=
  List.mem_append_right _ (List.mem_map_of_mem member)

/-- A batch that any holder takes from another holder. -/
def Sound (message : Message) : Prop :=
  (∀ write ∈ message.written, write.Sound) ∧ ∀ removal ∈ message.removed, removal.Sound

def Unassigned (message : Message) : Prop :=
  ∀ write ∈ message.written, write.assigned = none

end Message

namespace Holdings

def take (now : UInt64) (held : Holdings) : Message → Holdings
  | .writes writes => held.enterAll now writes
  | .removals removals => held.strikeAll removals

/-- What other holders are told of a batch that was taken in. -/
def news (now : UInt64) (held : Holdings) : Message → Message
  | .writes writes => .writes (Server.copies writes (held.results now writes))
  | .removals removals => .removals removals

section Take

variable {now : UInt64} {held : Holdings} {message : Message}

theorem news_written : (held.news now message).written =
    Server.copies message.written (held.results now message.written) := by
  cases message <;> rfl

theorem news_removed : (held.news now message).removed = message.removed := by
  cases message <;> rfl

@[simp] theorem take_id : (held.take now message).id = held.id := by
  cases message with
  | writes _ => exact enterAll_id
  | removals _ => exact strikeAll_id

variable {key : String}

/-- What every write and every removal of a key keeps about its entry, a batch keeps. -/
theorem take_keeps (property : Entry → Prop)
    (written : ∀ write version entry, (write, version) ∈ held.stamped now message.written → write.key = key →
      property entry → property (entry.write write (write.parents.getD []) version now).2)
    (removed : ∀ removal entry, removal ∈ message.removed → removal.key = key →
      property entry → property (entry.remove (removal.parents.getD [])).2)
    (before : property (held.entry key)) : property ((held.take now message).entry key) := by
  cases message with
  | writes _ => exact enterAll_keeps property written before
  | removals _ => exact strikeAll_keeps property removed before

theorem take_makes_written (property : Entry → Prop) {write : Write} {version : Version}
    (member : (write, version) ∈ held.stamped now message.written)
    (made : ∀ entry : Entry, property (entry.write write (write.parents.getD []) version now).2)
    (kept : ∀ other version entry, (other, version) ∈ held.stamped now message.written → other.key = write.key →
      property entry → property (entry.write other (other.parents.getD []) version now).2) :
    property ((held.take now message).entry write.key) := by
  cases message with
  | writes _ => exact enterAll_makes property member made kept
  | removals _ => cases member

theorem take_makes_removed (property : Entry → Prop) {removal : Removal} (member : removal ∈ message.removed)
    (made : ∀ entry : Entry, property (entry.remove (removal.parents.getD [])).2)
    (kept : ∀ other entry, other ∈ message.removed → other.key = removal.key →
      property entry → property (entry.remove (other.parents.getD [])).2) :
    property ((held.take now message).entry removal.key) := by
  cases message with
  | writes _ => cases member
  | removals _ => exact strikeAll_makes property member made kept

theorem take_other (foreign : key ∉ message.keys) : (held.take now message).entry key = held.entry key := by
  refine take_keeps (· = held.entry key) ?_ ?_ rfl
  · intro write version entry member equal
    obtain rfl := equal
    exact absurd (Message.key_written (mem_of_stamped member)) foreign
  · intro removal entry member equal
    obtain rfl := equal
    exact absurd (Message.key_removed member) foreign

end Take
end Holdings

def Server.holdings (server : Server) : Holdings :=
  server.store.holdings

namespace Server

section Start

variable {endpoint : Endpoint} {topology : Topology} {store : Store} {server : Server}

theorem start_ok : start endpoint topology store = .ok server ↔
    ∃ node, topology.nodeAt endpoint = some node ∧ server = { name := node.name, here := node.primary, topology, store } := by
  unfold start
  split
  · next absent => simp [absent]
  · next node found => simp [found, eq_comm]

theorem start_holdings (started : start endpoint topology store = .ok server) : server.holdings = store.holdings := by
  obtain ⟨_, _, rfl⟩ := start_ok.mp started
  rfl

end Start

theorem checkWrite_ok {origin : Origin} {write : Write} :
    checkWrite origin write = .ok () ↔
      write.Sound ∧ (origin.isClient = true → write.assigned = none) := by
  unfold checkWrite Write.Sound checkKey checkParents
  cases reserved : isReserved write.key <;> cases write.parents <;> cases origin.isClient <;>
    cases write.assigned <;> simp [bind, Except.bind, pure, Except.pure]

theorem checkRemoval_ok {removal : Removal} : checkRemoval removal = .ok () ↔ removal.Sound := by
  unfold checkRemoval Removal.Sound checkKey checkParents
  cases reserved : isReserved removal.key <;> cases removal.parents <;>
    simp [bind, Except.bind, pure, Except.pure]

theorem checkAll_ok {ρ : Type} {check : ρ → Except Refusal Unit} {items : List ρ} :
    checkAll check items = .ok () ↔ ∀ item ∈ items, check item = .ok () := by
  induction items with
  | nil => simp [checkAll]
  | cons item items ih =>
    simp only [checkAll, List.forall_mem_cons, ← ih]
    cases check item <;> simp [bind, Except.bind]

private theorem each_ok {ρ α : Type} {step : Nat → ρ → Batch → Except StoreFault α × Batch}
    {answer : Holdings → ρ → α} {change : Holdings → ρ → Holdings}
    {answers : Holdings → List ρ → List α} {items : List ρ}
    (nil : ∀ held, answers held [] = [])
    (cons : ∀ held item items, answers held (item :: items) = answer held item :: answers (change held item) items)
    (taken : ∀ item ∈ items, ∀ index batch, (step index item batch).1 = .ok (answer batch.holdings item) ∧
      (step index item batch).2.holdings = change batch.holdings item) (index : Nat) (batch : Batch) :
    (Batch.each step index items batch).1 = .ok (answers batch.holdings items) ∧
      (Batch.each step index items batch).2.holdings = items.foldl change batch.holdings := by
  induction items generalizing index batch with
  | nil => exact ⟨by rw [nil]; rfl, rfl⟩
  | cons item items ih =>
    obtain ⟨answered, changed⟩ := taken item List.mem_cons_self index batch
    obtain ⟨rest, final⟩ := ih (fun other member => taken other (List.mem_cons_of_mem _ member))
      (index + 1) (step index item batch).2
    rw [changed] at rest final
    rw [cons, List.foldl_cons]
    generalize first : step index item batch = pair at answered rest final
    obtain ⟨result, next⟩ := pair
    generalize later : Batch.each step (index + 1) items next = pair at rest final
    obtain ⟨results, last⟩ := pair
    simp only at answered rest final
    subst answered rest
    simp only [Batch.each, first, later]
    exact ⟨trivial, final⟩

private theorem transact_ok {α : Type} (store : Store) {work : Batch → Except StoreFault α × Batch} {answer : α}
    (worked : (work store.openBatch).1 = .ok answer) :
    store.transact .never work = (.ok answer, (work store.openBatch).2.commit) := by
  unfold Store.transact
  generalize work store.openBatch = pair at worked ⊢
  obtain ⟨result, batch⟩ := pair
  subst worked
  rfl

/-- A committed batch leaves the holdings that its steps lead to, one after the other. -/
private theorem commit_ok {ρ α : Type} (server : Server) {step : Nat → ρ → Batch → Except StoreFault α × Batch}
    {answer : Holdings → ρ → α} {change : Holdings → ρ → Holdings}
    {answers : Holdings → List ρ → List α} {items : List ρ} (mail : List α → List Letter)
    (nil : ∀ held, answers held [] = [])
    (cons : ∀ held item items, answers held (item :: items) = answer held item :: answers (change held item) items)
    (taken : ∀ item ∈ items, ∀ index batch, (step index item batch).1 = .ok (answer batch.holdings item) ∧
      (step index item batch).2.holdings = change batch.holdings item) :
    ∃ store : Store, store.holdings = items.foldl change server.holdings ∧
      server.commit .never items step mail =
        { answer := .ok (answers server.holdings items)
          server := { server with store }
          mail := mail (answers server.holdings items) } := by
  obtain ⟨answered, changed⟩ := each_ok nil cons taken 0 server.store.openBatch
  rw [Store.holdings_openBatch] at answered changed
  refine ⟨(Batch.each step 0 items server.store.openBatch).2.commit, ?_, ?_⟩
  · rw [Batch.holdings_commit]
    exact changed
  · rw [Server.commit, transact_ok server.store answered]
    rfl

section Write

variable (server : Server) (now : UInt64) {origin : Origin} {writes : List Write}

theorem write_accepted (sound : ∀ write ∈ writes, checkWrite origin write = .ok ()) :
    ∃ store : Store, store.holdings = server.holdings.enterAll now writes ∧
      server.write .never now origin writes =
        { answer := .ok (server.holdings.results now writes)
          server := { server with store }
          mail := letters (.of origin server.here) (.writes (copies writes (server.holdings.results now writes))) } := by
  rw [Server.write, checkAll_ok.mpr sound]
  refine commit_ok server _ (fun _ => rfl) (fun _ _ _ => rfl) ?_
  intro write member index batch
  exact batch.write_validated write now (checkWrite_ok.mp (sound write member)).1.2

theorem write_refused (unsound : ¬ ∀ write ∈ writes, checkWrite origin write = .ok ()) :
    ∃ refusal, server.write .never now origin writes = server.refuse refusal := by
  unfold Server.write
  cases checked : checkAll (checkWrite origin) writes with
  | ok _ => exact absurd (checkAll_ok.mp checked) unsound
  | error refusal => exact ⟨refusal, rfl⟩

end Write

section Remove

variable (server : Server) (origin : Origin) {removals : List Removal}

theorem remove_accepted (sound : ∀ removal ∈ removals, removal.Sound) :
    ∃ store : Store, store.holdings = server.holdings.strikeAll removals ∧
      server.remove .never origin removals =
        { answer := .ok (server.holdings.struck removals)
          server := { server with store }
          mail := letters (.of origin server.here) (.removals removals) } := by
  rw [Server.remove, checkAll_ok.mpr fun removal member => checkRemoval_ok.mpr (sound removal member)]
  refine commit_ok server _ (fun _ => rfl) (fun _ _ _ => rfl) ?_
  intro removal member index batch
  exact batch.remove_validated removal (sound removal member).2

theorem remove_refused (unsound : ¬ ∀ removal ∈ removals, removal.Sound) :
    ∃ refusal, server.remove .never origin removals = server.refuse refusal := by
  unfold Server.remove
  cases checked : checkAll checkRemoval removals with
  | ok _ =>
    refine absurd (fun removal member => ?_) unsound
    exact checkRemoval_ok.mp (checkAll_ok.mp checked removal member)
  | error refusal => exact ⟨refusal, rfl⟩

end Remove

def accepts (origin : Origin) : Message → Bool
  | .writes writes => (checkAll (checkWrite origin) writes).isOk
  | .removals removals => (checkAll checkRemoval removals).isOk

/-- A batch taken from somewhere, its answer left aside. -/
def handle (server : Server) (now : UInt64) (origin : Origin) : Message → Outcome Unit
  | .writes writes => unheard (server.write .never now origin writes)
  | .removals removals => unheard (server.remove .never origin removals)

private theorem isOk_iff {result : Except Refusal Unit} : result.isOk = true ↔ result = .ok () := by
  cases result <;> simp [Except.isOk, Except.toBool]

theorem accepts_writes {origin : Origin} {writes : List Write} :
    accepts origin (.writes writes) = true ↔ ∀ write ∈ writes, checkWrite origin write = .ok () := by
  rw [accepts, isOk_iff, checkAll_ok]

theorem accepts_removals {origin : Origin} {removals : List Removal} :
    accepts origin (.removals removals) = true ↔ ∀ removal ∈ removals, removal.Sound := by
  simp only [accepts, isOk_iff, checkAll_ok, checkRemoval_ok]

theorem accepts_iff {origin : Origin} {message : Message} :
    accepts origin message = true ↔ message.Sound ∧ (origin.isClient = true → message.Unassigned) := by
  cases message with
  | writes writes =>
    simp only [accepts_writes, checkWrite_ok]
    constructor
    · intro passed
      refine ⟨⟨fun write member => (passed write member).1, fun removal member => by cases member⟩, ?_⟩
      exact fun client write member => (passed write member).2 client
    · intro passed write member
      exact ⟨passed.1.1 write member, fun client => passed.2 client write member⟩
  | removals removals =>
    rw [accepts_removals]
    constructor
    · intro passed
      exact ⟨⟨fun write member => (by cases member), passed⟩, fun _ write member => (by cases member)⟩
    · exact fun passed => passed.1.2

theorem handle_accepted (server : Server) (now : UInt64) {origin : Origin} {message : Message}
    (accepted : accepts origin message = true) :
    ∃ store : Store, store.holdings = server.holdings.take now message ∧
      server.handle now origin message =
        { answer := ()
          server := { server with store }
          mail := letters (.of origin server.here) (server.holdings.news now message) } := by
  cases message with
  | writes writes =>
    obtain ⟨store, changed, shape⟩ := server.write_accepted now (accepts_writes.mp accepted)
    exact ⟨store, changed, by rw [handle, shape]; rfl⟩
  | removals removals =>
    obtain ⟨store, changed, shape⟩ := server.remove_accepted origin (accepts_removals.mp accepted)
    exact ⟨store, changed, by rw [handle, shape]; rfl⟩

theorem handle_quiet (server : Server) (now : UInt64) {message : Message} (accepted : accepts .peer message = true) :
    (server.handle now .peer message).mail = [] := by
  obtain ⟨store, _, shape⟩ := server.handle_accepted now accepted
  rw [shape]
  simp [letters, Dispatch.of]

theorem handle_refused (server : Server) (now : UInt64) {origin : Origin} {message : Message}
    (refused : accepts origin message = false) :
    server.handle now origin message = { answer := (), server, mail := [] } := by
  cases message with
  | writes writes =>
    have unsound : ¬ ∀ write ∈ writes, checkWrite origin write = .ok () :=
      fun passed => Bool.false_ne_true (refused.symm.trans (accepts_writes.mpr passed))
    obtain ⟨refusal, shape⟩ := server.write_refused now unsound
    rw [handle, shape]
    rfl
  | removals removals =>
    have unsound : ¬ ∀ removal ∈ removals, removal.Sound :=
      fun passed => Bool.false_ne_true (refused.symm.trans (accepts_removals.mpr passed))
    obtain ⟨refusal, shape⟩ := server.remove_refused origin unsound
    rw [handle, shape]
    rfl

theorem receive_eq_handle (server : Server) (now : UInt64) (message : Message) :
    server.receive .never now message = server.handle now .peer message := by
  cases message <;> rfl

theorem answer_written {server : Server} {now : UInt64} {origin : Origin} {writes : List Write} {results : List Written}
    (answered : Operation.write.content (server.answer .never now (.write origin writes)).answer = some results) :
    accepts origin (.writes writes) = true ∧ results = server.holdings.results now writes := by
  rw [Operation.write_content] at answered
  cases passed : accepts origin (.writes writes) with
  | false =>
    have unsound : ¬ ∀ write ∈ writes, checkWrite origin write = .ok () :=
      fun sound => Bool.false_ne_true (passed.symm.trans (accepts_writes.mpr sound))
    obtain ⟨refusal, shape⟩ := server.write_refused now unsound
    rw [answer, shape] at answered
    cases answered
  | true =>
    obtain ⟨store, _, shape⟩ := server.write_accepted now (accepts_writes.mp passed)
    rw [answer, shape] at answered
    cases answered
    exact ⟨rfl, rfl⟩

theorem answer_removed {server : Server} {now : UInt64} {origin : Origin} {removals : List Removal} {flags : List Bool}
    (answered : Operation.remove.content (server.answer .never now (.remove origin removals)).answer = some flags) :
    accepts origin (.removals removals) = true ∧ flags = server.holdings.struck removals := by
  rw [Operation.remove_content] at answered
  cases passed : accepts origin (.removals removals) with
  | false =>
    have unsound : ¬ ∀ removal ∈ removals, removal.Sound :=
      fun sound => Bool.false_ne_true (passed.symm.trans (accepts_removals.mpr sound))
    obtain ⟨refusal, shape⟩ := server.remove_refused origin unsound
    rw [answer, shape] at answered
    cases answered
  | true =>
    obtain ⟨store, _, shape⟩ := server.remove_accepted origin (accepts_removals.mp passed)
    rw [answer, shape] at answered
    cases answered
    exact ⟨rfl, rfl⟩

private theorem each_read (now : UInt64) (reads : List Read) (index : Nat) (batch : Batch) :
    Batch.each (fun index read => Outage.guard (Outage.never.read index) fun batch => (.ok (batch.read read now), batch))
        index reads batch =
      (.ok (reads.map fun read => (batch.holdings.entry read.key).read read.version now), batch) := by
  induction reads generalizing index with
  | nil => rfl
  | cons read reads ih =>
    have taken : Outage.guard (Outage.never.read index) (fun batch => (.ok (batch.read read now), batch)) batch =
        ((.ok (batch.read read now), batch) : Except StoreFault (List Value) × Batch) := rfl
    simp only [Batch.each, taken, ih, List.map_cons]
    rfl

/-- A read answers from the holdings, and uses up no number. -/
theorem read_idle (server : Server) (now : UInt64) (reads : List Read) :
    server.read .never now reads =
      { answer := .ok (reads.map fun read => (server.holdings.entry read.key).read read.version now)
        server
        mail := [] } := by
  simp only [Server.read, Store.consult, each_read, Store.holdings_openBatch]
  rfl

/-- A read answers from the holdings and leaves them as they are. -/
theorem read_answered (server : Server) (now : UInt64) (reads : List Read) :
    ∃ store : Store, store.holdings = server.holdings ∧
      server.read .never now reads =
        { answer := .ok (reads.map fun read => (server.holdings.entry read.key).read read.version now)
          server := { server with store }
          mail := [] } :=
  ⟨server.store, rfl, server.read_idle now reads⟩

end Server
end ReplicaRing
