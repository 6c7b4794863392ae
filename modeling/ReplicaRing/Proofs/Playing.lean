import ReplicaRing.Proofs.Scenes

/-! Every step of a cluster comes down to moves: a call to a holder is at most one, a batch is one for
each call, and a delivery is one for each letter that is taken in. So whatever moves preserve holds
in every run. -/

namespace ReplicaRing

namespace Server

theorem answer_batch (server : Server) (now : UInt64) {asked : Call} {origin : Origin} {message : Message}
    (batch : asked.batch = some (origin, message)) :
    (server.answer .never now asked).server = (server.handle now origin message).server ∧
      (server.answer .never now asked).mail = (server.handle now origin message).mail := by
  cases asked with
  | write _ _ =>
    cases batch
    exact ⟨rfl, rfl⟩
  | remove _ _ =>
    cases batch
    exact ⟨rfl, rfl⟩
  | _ => cases batch

theorem answer_idle (server : Server) (now : UInt64) {asked : Call} (batch : asked.batch = none) :
    (server.answer .never now asked).server.holdings = server.holdings ∧
      (server.answer .never now asked).server.here = server.here ∧ (server.answer .never now asked).mail = [] := by
  cases asked with
  | read reads =>
    obtain ⟨store, same, shape⟩ := server.read_answered now reads
    rw [answer, shape]
    exact ⟨same, rfl, rfl⟩
  | nodes => exact ⟨rfl, rfl, rfl⟩
  | nodeAt _ => exact ⟨rfl, rfl, rfl⟩
  | _ => cases batch

end Server

theorem Server.copies_sound {writes : List Write} {results : List Written} (sound : ∀ write ∈ writes, write.Sound) :
    ∀ copy ∈ copies writes results, copy.Sound := by
  induction writes generalizing results with
  | nil => simp [copies]
  | cons write writes ih =>
    have later (results : List Written) : ∀ copy ∈ copies writes results, copy.Sound :=
      ih fun other member => sound other (List.mem_cons_of_mem _ member)
    cases results with
    | nil => simp [copies]
    | cons result results =>
      cases given : result.version with
      | none => simpa [copies, given] using later results
      | some version =>
        simp only [copies, given, List.forall_mem_cons]
        exact ⟨sound write List.mem_cons_self, later results⟩

theorem Message.Sound.news {message : Message} (sound : message.Sound) (now : UInt64) (held : Holdings) :
    (held.news now message).Sound := by
  rw [Message.Sound, Holdings.news_written, Holdings.news_removed]
  exact ⟨Server.copies_sound sound.1, sound.2⟩

theorem Message.Sound.letters {message : Message} (sound : message.Sound) (dispatch : Dispatch) :
    ∀ letter ∈ Server.letters dispatch message, letter.message.Sound := by
  intro letter member
  simp only [Server.letters] at member
  split at member
  · cases member
  · obtain ⟨_, _, rfl⟩ := List.mem_map.mp member
    exact sound

namespace Ring

variable {ring : Ring} {cluster : Cluster} {now : UInt64}

theorem holdings_seated {seat : ring.Seat} {server : Server} (found : cluster.servers[(seat : Nat)]? = some server) :
    ring.holdings cluster seat = server.holdings := by
  simp [holdings, found]

theorem entry_seated {seat : ring.Seat} {server : Server} (found : cluster.servers[(seat : Nat)]? = some server) :
    (ring.holdings cluster seat).entry = server.store.table.entry := by
  rw [holdings_seated found]
  rfl

def look (ring : Ring) (record : Record) : ring.Scene :=
  ring.view record.cluster record.cluster.network.mailbox record.notes

private theorem look_settle {record : Record} (housed : ring.Housed record.cluster) {α : Type} (seat : ring.Seat)
    (outcome : Outcome α) (note : Option Deed) :
    ring.look (record.jot (record.cluster.settle seat outcome) note) =
      { holdings := Function.update (ring.holdings record.cluster) seat outcome.server.holdings
        mailbox := record.cluster.network.mailbox ++ outcome.mail.filter fun letter => ring.takesMail letter.target
        deeds := record.notes ++ note.toList } := by
  simp only [look, view, Noted.jot_cluster, Noted.jot_notes, settle_holdings housed, settle_mailbox housed]

/-- A call to a holder of a shard, with items of the shard, is at most one move. -/
private theorem call_moves (now : UInt64) {record : Record} (housed : ring.Housed record.cluster) {shard : ring.Seat}
    {endpoint : Endpoint} (listed : endpoint ∈ (ring.node shard).chain) {asked : Call}
    (batch : ∀ origin message, asked.batch = some (origin, message) →
      origin = .client (ring.node shard) ∧ ∀ key ∈ message.keys, ring.shardOf key = shard) :
    ring.Housed (Noted.call Occasion.deed now endpoint asked record).2.cluster ∧
      ring.Moves (ring.look record) (ring.look (Noted.call Occasion.deed now endpoint asked record).2) := by
  rcases Noted.call_cases Occasion.deed now endpoint asked record with
    ⟨error, same⟩ | ⟨number, server, reached, found, same⟩
  · rw [same]
    exact ⟨housed, .refl⟩
  obtain ⟨seat, registered, called, rfl⟩ : ∃ seat : ring.Seat, ring.Registered seat ∧
      (ring.address seat).sync = endpoint ∧ number = seat := by
    apply housed.callee_iff.mp
    unfold Network.reach at reached
    split at reached
    · cases reached
    · split at reached
      · cases reached
      · split at reached
        · cases reached
        · next callee _ =>
          cases reached
          exact callee
  have holds : ring.Holds seat shard := by
    refine ⟨registered, ?_⟩
    obtain ⟨address, holder, same⟩ := List.mem_map.mp listed
    obtain ⟨other, rfl⟩ := ring.holder_seat holder
    rw [ring.sync_inj (called.trans same.symm)]
    exact holder
  have placed : server.here = ring.address seat := by
    obtain ⟨other, stored, placed⟩ := housed.seated seat
    cases stored.symm.trans found
    exact placed
  have held := holdings_seated found
  have unchanged : Function.update (ring.holdings record.cluster) seat server.holdings = ring.holdings record.cluster := by
    rw [← held, Function.update_eq_self]
  rw [same]
  cases sent : asked.batch with
  | none =>
    obtain ⟨kept, stays, quiet⟩ := server.answer_idle now sent
    refine ⟨settle_housed housed (stays.trans placed) (by simp [quiet]), ?_⟩
    simp only [look_settle housed, Occasion.deed_answering, sent, kept, quiet, unchanged, Option.bind_none,
      Option.toList_none, List.append_nil, List.filter_nil]
    exact .refl
  | some pair =>
    obtain ⟨origin, message⟩ := pair
    obtain ⟨rfl, owned⟩ := batch origin message sent
    obtain ⟨next, mail⟩ := server.answer_batch now sent
    cases passed : Server.accepts (.client (ring.node shard)) message with
    | false =>
      have refused := server.handle_refused now passed
      refine ⟨settle_housed housed (by rw [next, refused]; exact placed) (by simp [mail, refused]), ?_⟩
      simp only [look_settle housed, Occasion.deed_answering, sent, next, mail, refused, unchanged, Server.deed, passed,
        Option.bind_some, Bool.false_eq_true, if_false, Option.toList_none, List.append_nil, List.filter_nil]
      exact .refl
    | true =>
      obtain ⟨sound, unassigned⟩ := Server.accepts_iff.mp passed
      obtain ⟨store, changed, shape⟩ := server.handle_accepted now passed
      have letters : ∀ letter ∈ (server.answer .never now asked).mail, letter.message.Sound := by
        rw [mail, shape]
        exact (sound.news now server.holdings).letters _
      refine ⟨settle_housed housed (by rw [next, shape]; exact placed) letters, ?_⟩
      have move : ring.Move (ring.look record) ((ring.look record).serve seat shard now message) :=
        .served now holds sound (unassigned rfl) owned
      refine .single ?_
      simp only [look_settle housed, Occasion.deed_answering, sent, next, mail, shape, Option.bind_some,
        Server.deed_accepted passed, Option.toList_some, placed]
      simpa only [Scene.serve, look, view, held, Ring.deed, Ring.mail, Server.holdings, changed] using move

private theorem batch_moves (now : UInt64) {ρ α : Type} (operation : Operation ρ α) (items : List ρ)
    (housed : ring.Housed cluster)
    (brings : ∀ shard carried origin message, (∀ item ∈ carried, ring.shardOf (operation.key item) = shard) →
      (operation.call (ring.node shard) carried).batch = some (origin, message) →
      origin = .client (ring.node shard) ∧ ∀ key ∈ message.keys, ring.shardOf key = shard) :
    ring.Housed (ring.client.run (Noted.call Occasion.deed now) operation items { cluster, notes := [] }).2.cluster ∧
      ring.Moves (ring.look { cluster, notes := [] })
        (ring.look (ring.client.run (Noted.call Occasion.deed now) operation items { cluster, notes := [] }).2) := by
  have calls : ring.client.CallsKeep (Noted.call Occasion.deed now) operation items fun record =>
      ring.Housed record.cluster ∧ ring.Moves (ring.look { cluster, notes := [] }) (ring.look record) := by
    intro shard carried endpoint record carries listed before
    obtain ⟨housed, moves⟩ := before
    have owned : ∀ item ∈ carried, ring.shardOf (operation.key item) = shard :=
      fun item member => (carries item member).2
    obtain ⟨after, more⟩ := call_moves now housed listed
      fun origin message batch => brings shard carried origin message owned batch
    exact ⟨after, moves.trans more⟩
  exact Client.run_keeps _ calls ⟨housed, .refl⟩

namespace Housed

theorem with_mailbox (housed : ring.Housed cluster) {mailbox : List Letter}
    (kept : ∀ letter ∈ mailbox, letter ∈ cluster.network.mailbox) :
    ring.Housed { cluster with network := { cluster.network with mailbox } } where
  seated := housed.seated
  roster := housed.roster
  mail letter member := housed.mail letter (kept letter member)

theorem mapNetwork (housed : ring.Housed cluster) (change : Network → Network)
    (roster : (change cluster.network).roster = cluster.network.roster)
    (mailbox : (change cluster.network).mailbox = cluster.network.mailbox) :
    ring.Housed (cluster.mapNetwork change) where
  seated := housed.seated
  roster := by
    rw [Cluster.mapNetwork, roster]
    exact housed.roster
  mail := by
    rw [Cluster.mapNetwork, mailbox]
    exact housed.mail

theorem apply_letter (housed : ring.Housed cluster) (now : UInt64) {seat : ring.Seat} (registered : ring.Registered seat)
    {letter : Letter} (target : letter.target = (ring.address seat).async) (sound : letter.message.Sound) :
    ∃ next, Cluster.apply now letter cluster = some next ∧ ring.Housed next ∧ next.network = cluster.network ∧
      ring.holdings next = Function.update (ring.holdings cluster) seat
        ((ring.holdings cluster seat).take now letter.message) ∧
      Noted.opened Occasion.deed now letter cluster =
        some (ring.deed seat .peer now (ring.holdings cluster seat) letter.message) := by
  obtain ⟨server, found, placed⟩ := housed.seated seat
  have addressed : cluster.network.addressee letter.target = some (seat : Nat) :=
    housed.addressee_iff.mpr ⟨seat, registered, target.symm, rfl⟩
  have accepted : Server.accepts .peer letter.message = true :=
    Server.accepts_iff.mpr ⟨sound, fun client => by cases client⟩
  obtain ⟨store, changed, shape⟩ := server.handle_accepted now accepted
  have quiet := server.handle_quiet now accepted
  refine ⟨cluster.settle seat (server.handle now .peer letter.message), ?_, ?_, ?_, ?_, ?_⟩
  · simp [Cluster.apply, addressed, found, server.receive_eq_handle]
  · exact settle_housed housed (by rw [shape]; exact placed) (by simp [quiet])
  · simp [Cluster.settle, quiet, Post.handAll]
  · rw [settle_holdings housed, shape, holdings_seated found, ← changed]
    rfl
  · simp [Noted.opened, Occasion.deed_reading, addressed, found, Server.deed_accepted accepted, Ring.deed, placed,
      holdings_seated found]

end Housed

/-- Letters are taken up from the front, and those that must wait gather at the back. Seen with the
back put first, no letter has overtaken another one to the same machine. -/
private theorem deliverWithin_moves (now : UInt64) {front : List Letter} (back : List Letter) (record : Record)
    (housed : ring.Housed record.cluster) (mail : record.cluster.network.mailbox = front ++ back)
    (waiting : ∀ letter ∈ back, record.cluster.network.down.contains letter.target = true) :
    ring.Housed (Noted.deliverWithin Occasion.deed now front.length record).2.cluster ∧
      ring.Moves (ring.view record.cluster (back ++ front) record.notes)
        (ring.look (Noted.deliverWithin Occasion.deed now front.length record).2) := by
  induction front generalizing back record with
  | nil =>
    refine ⟨housed, ?_⟩
    rw [List.append_nil, ← List.nil_append back, ← mail]
    exact .refl
  | cons letter front ih =>
    have first : record.cluster.network.mailbox = letter :: (front ++ back) := mail
    simp only [List.length_cons, Noted.deliverWithin, first]
    by_cases away : record.cluster.network.down.contains letter.target = true
    · simp only [away, if_true]
      have requeued : ring.Housed (record.sort (front ++ back ++ [letter])).cluster := by
        refine housed.with_mailbox fun other member => ?_
        rw [first]
        simp only [List.mem_append, List.mem_cons, List.not_mem_nil, or_false] at member ⊢
        exact member.symm
      have later : ∀ other ∈ back ++ [letter], record.cluster.network.down.contains other.target = true := by
        intro other member
        rcases List.mem_append.mp member with old | new
        · exact waiting other old
        · rw [List.mem_singleton.mp new]
          exact away
      obtain ⟨after, moves⟩ := ih (back ++ [letter]) (record.sort (front ++ back ++ [letter])) requeued
        (List.append_assoc _ _ _) later
      refine ⟨after, ?_⟩
      rw [List.append_assoc back, List.singleton_append] at moves
      exact moves
    · simp only [away, Bool.false_eq_true, if_false]
      have opened : ring.Housed (record.sort (front ++ back)).cluster :=
        housed.with_mailbox fun other member => first ▸ List.mem_cons_of_mem _ member
      obtain ⟨sound, seat, registered, target⟩ := housed.mail letter (first ▸ List.mem_cons_self)
      obtain ⟨next, applied, after, network, held, noted⟩ := opened.apply_letter now registered target sound
      simp only [applied, noted]
      let deed := ring.deed seat .peer now (ring.holdings record.cluster seat) letter.message
      obtain ⟨final, moves⟩ := ih back (record.jot next (some deed)) after (by rw [Noted.jot_cluster, network]; rfl)
        (by rw [Noted.jot_cluster, network]; exact waiting)
      refine ⟨final, Relation.ReflTransGen.head ?_ moves⟩
      have move : ring.Move (ring.view record.cluster (back ++ letter :: front) record.notes)
          ((ring.view record.cluster (back ++ letter :: front) record.notes).receive seat now letter.message
            (back ++ front)) := by
        refine .received now ?_ (fun other member same => ?_) sound
        · rw [← target]
          rfl
        · exact away ((target.trans same.symm) ▸ waiting other member)
      have same : ring.view next (back ++ front) (record.notes ++ [deed]) =
          (ring.view record.cluster (back ++ letter :: front) record.notes).receive seat now letter.message
            (back ++ front) := by
        simp only [Scene.receive, view, held]
        rfl
      rw [← same] at move
      exact move

/-- Every step of a cluster is a sequence of moves. -/
theorem step_moves (housed : ring.Housed cluster) (now : UInt64) (action : Action) :
    ring.Housed (Cluster.step ring.client now action cluster).2 ∧
      ring.Moves (ring.look { cluster, notes := [] })
        (ring.look { cluster := (Cluster.step ring.client now action cluster).2
                     notes := Cluster.deeds ring.client now action cluster }) := by
  suffices moves : ring.Housed (Noted.step Occasion.deed now ring.client action { cluster, notes := [] }).2.cluster ∧
      ring.Moves (ring.look { cluster, notes := [] })
        (ring.look (Noted.step Occasion.deed now ring.client action { cluster, notes := [] }).2) by
    rw [← Noted.step_after Occasion.deed now ring.client action { cluster, notes := [] }]
    exact moves
  cases action with
  | write writes =>
    refine batch_moves now .write writes housed fun shard carried origin message owned batch => ?_
    cases batch
    refine ⟨rfl, fun key member => ?_⟩
    rw [Message.keys, Message.removed, List.map_nil, List.append_nil] at member
    obtain ⟨write, carries, rfl⟩ := List.mem_map.mp member
    exact owned write carries
  | read reads =>
    refine batch_moves now .read reads housed fun shard carried origin message owned batch => ?_
    cases batch
  | remove removals =>
    refine batch_moves now .remove removals housed fun shard carried origin message owned batch => ?_
    cases batch
    refine ⟨rfl, fun key member => ?_⟩
    rw [Message.keys, Message.written, List.map_nil, List.nil_append] at member
    obtain ⟨removal, carries, rfl⟩ := List.mem_map.mp member
    exact owned removal carries
  | deliver =>
    exact deliverWithin_moves now [] { cluster, notes := [] } housed (List.append_nil _).symm (by simp)
  | down address => exact ⟨housed.mapNetwork (·.takeDown address) rfl rfl, .refl⟩
  | up address => exact ⟨housed.mapNetwork (·.bringUp address) rfl rfl, .refl⟩
  | hang address => exact ⟨housed.mapNetwork (·.hang address) rfl rfl, .refl⟩

/-- The servers that were started are in the first seats, and nothing has happened yet. -/
private structure Started (ring : Ring) (cluster : Cluster) : Prop where
  seated : ∀ seat : ring.Seat, (seat : Nat) < cluster.servers.length →
    ∃ server, cluster.servers[(seat : Nat)]? = some server ∧ server.here = ring.address seat ∧
      server.holdings = .fresh (ring.setup.identity (ring.node seat))
  roster : ∀ registration, registration ∈ cluster.network.roster ↔
    ∃ seat : ring.Seat, (seat : Nat) < cluster.servers.length ∧ ring.Registered seat ∧
      registration = { address := ring.address seat, seat := (seat : Nat) }
  mail : cluster.network.mailbox = []

private theorem startServer_seat (seat : ring.Seat) :
    ∃ server, Cluster.startServer ring.topology ring.setup (ring.node seat) = .ok server ∧
      server.here = ring.address seat ∧ server.holdings = .fresh (ring.setup.identity (ring.node seat)) := by
  have found := ring.nodeAt_sync seat
  refine ⟨_, by rw [Cluster.startServer, Server.start, ← address, found], rfl, ?_⟩
  exact Store.holdings_fresh _

private theorem startAll_started {rest : List Node} {cluster final : Cluster}
    (left : ring.topology.nodes.drop cluster.servers.length = rest) (before : Started ring cluster)
    (ran : Cluster.startAll ring.topology ring.setup rest cluster = .ok final) :
    Started ring final ∧ ring.topology.count ≤ final.servers.length := by
  induction rest generalizing cluster with
  | nil =>
    cases ran
    exact ⟨before, List.drop_eq_nil_iff.mp left⟩
  | cons node rest ih =>
    have inside : cluster.servers.length < ring.topology.count := by
      have nonempty : ring.topology.nodes.drop cluster.servers.length ≠ [] := by simp [left]
      simpa [List.drop_eq_nil_iff, Topology.count] using nonempty
    have parts := left.symm.trans (List.drop_eq_getElem_cons inside)
    simp only [List.cons.injEq] at parts
    obtain ⟨server, started, placed, held⟩ := startServer_seat (⟨cluster.servers.length, inside⟩ : ring.Seat)
    have same : ring.node ⟨cluster.servers.length, inside⟩ = node := parts.1.symm
    rw [same] at started held
    simp only [Cluster.startAll, started, bind, Except.bind] at ran
    refine ih ?_ ?_ ran
    · simpa using parts.2.symm
    · constructor
      · intro seat earlier
        simp only [List.length_append, List.length_singleton] at earlier
        by_cases old : (seat : Nat) < cluster.servers.length
        · obtain ⟨other, found, rest⟩ := before.seated seat old
          exact ⟨other, by rw [List.getElem?_append_left old]; exact found, rest⟩
        · have last : seat = ⟨cluster.servers.length, inside⟩ := Fin.ext (by simp only; omega)
          subst last
          exact ⟨server, by simp, placed, by rw [same]; exact held⟩
      · intro registration
        simp only [List.length_append, List.length_singleton]
        constructor
        · intro listed
          split at listed
          · next registers =>
            rcases List.mem_cons.mp listed with rfl | old
            · refine ⟨⟨cluster.servers.length, inside⟩, Nat.lt_succ_self _, ?_, ?_⟩
              · rw [Registered, same]
                exact registers
              · rw [address, same]
            · obtain ⟨seat, earlier, rest⟩ := (before.roster registration).mp old
              exact ⟨seat, Nat.lt_succ_of_lt earlier, rest⟩
          · obtain ⟨seat, earlier, rest⟩ := (before.roster registration).mp listed
            exact ⟨seat, Nat.lt_succ_of_lt earlier, rest⟩
        · intro listed
          obtain ⟨seat, earlier, registered, rfl⟩ := listed
          by_cases old : (seat : Nat) < cluster.servers.length
          · have listed := (before.roster _).mpr ⟨seat, old, registered, rfl⟩
            split
            · exact List.mem_cons_of_mem _ listed
            · exact listed
          · have last : seat = ⟨cluster.servers.length, inside⟩ := Fin.ext (by simp only; omega)
            subst last
            rw [Registered, same] at registered
            rw [if_pos registered, address, same]
            exact List.mem_cons_self
      · simp only
        split <;> exact before.mail

/-- A ring can always be started. -/
theorem exists_start (ring : Ring) : ∃ cluster, Cluster.start ring.topology ring.setup = .ok cluster := by
  have all (rest : List Node) (listed : ∀ node ∈ rest, ∃ seat, ring.node seat = node) (cluster : Cluster) :
      ∃ final, Cluster.startAll ring.topology ring.setup rest cluster = .ok final := by
    induction rest generalizing cluster with
    | nil => exact ⟨cluster, rfl⟩
    | cons node rest ih =>
      obtain ⟨seat, rfl⟩ := listed node List.mem_cons_self
      obtain ⟨server, started, _⟩ := startServer_seat seat
      simp only [Cluster.startAll, started, bind, Except.bind]
      exact ih (fun other member => listed other (List.mem_cons_of_mem _ member)) _
  exact all ring.topology.nodes (fun node member => List.get_of_mem member) _

theorem start_housed {cluster : Cluster} (started : Cluster.start ring.topology ring.setup = .ok cluster) :
    ring.Housed cluster ∧ ring.look { cluster, notes := [] } = .opening ring := by
  have empty : Started ring { network := .empty, servers := [] } :=
    ⟨fun _ earlier => absurd earlier (Nat.not_lt_zero _), fun _ => by simp [Network.empty], rfl⟩
  obtain ⟨⟨seated, roster, mail⟩, full⟩ := startAll_started rfl empty started
  have inside (seat : ring.Seat) : (seat : Nat) < cluster.servers.length := Nat.lt_of_lt_of_le seat.isLt full
  refine ⟨⟨fun seat => ?_, fun registration => ?_, by simp [mail]⟩, ?_⟩
  · obtain ⟨server, found, placed, _⟩ := seated seat (inside seat)
    exact ⟨server, found, placed⟩
  · rw [roster registration]
    simp only [inside, true_and]
  · simp only [look, view, Scene.opening, mail, Scene.mk.injEq, and_true]
    funext seat
    obtain ⟨server, found, _, held⟩ := seated seat (inside seat)
    rw [holdings_seated found, held]

end Ring

namespace Chronicle

def scene (ring : Ring) (chronicle : Chronicle) : ring.Scene :=
  ring.look { cluster := chronicle.cluster, notes := chronicle.deeds }

def opening (ring : Ring) : Chronicle where
  cluster :=
    match Cluster.start ring.topology ring.setup with
    | .ok cluster => cluster
    | .error _ => { network := .empty, servers := [] }
  turns := []
  deeds := []

def play (ring : Ring) (steps : List (UInt64 × Action)) : Chronicle :=
  steps.foldl (fun chronicle step => chronicle.step ring.client step.1 step.2) (opening ring)

end Chronicle

namespace Ring.Reached

variable {ring : Ring} {chronicle : Chronicle}

private theorem housed_played (reached : ring.Reached chronicle) :
    ring.Housed chronicle.cluster ∧ ring.Played (chronicle.scene ring) := by
  induction reached with
  | start started =>
    obtain ⟨housed, same⟩ := start_housed started
    refine ⟨housed, ?_⟩
    rw [Chronicle.scene, same]
    exact .refl
  | @step earlier now action _ ih =>
    obtain ⟨housed, played⟩ := ih
    obtain ⟨after, moves⟩ := step_moves housed now action
    refine ⟨after, played.trans ?_⟩
    have noted := moves_after moves earlier.deeds
    simp only [Scene.after, look, view, List.append_nil] at noted
    exact noted

theorem housed (reached : ring.Reached chronicle) : ring.Housed chronicle.cluster :=
  reached.housed_played.1

theorem played (reached : ring.Reached chronicle) : ring.Played (chronicle.scene ring) :=
  reached.housed_played.2

theorem play (ring : Ring) (steps : List (UInt64 × Action)) : ring.Reached (.play ring steps) := by
  have first : ring.Reached (.opening ring) := by
    obtain ⟨cluster, started⟩ := ring.exists_start
    rw [Chronicle.opening, started]
    exact .start started
  have further (before : Chronicle) (reached : ring.Reached before) :
      ring.Reached (steps.foldl (fun chronicle step => chronicle.step ring.client step.1 step.2) before) := by
    induction steps generalizing before with
    | nil => exact reached
    | cons step steps ih => exact ih _ (.step step.1 step.2 reached)
  exact further _ first

end Ring.Reached

/-- Three machines, each of which keeps a copy of everything. -/
def Ring.trio : Ring where
  config := .ring [("a", ⟨⟨"tcp://a"⟩, ⟨"queue://a"⟩⟩), ("b", ⟨⟨"tcp://b"⟩, ⟨"queue://b"⟩⟩), ("c", ⟨⟨"tcp://c"⟩, ⟨"queue://c"⟩⟩)]
  topology :=
    { nodes :=
        [ { name := "a", primary := ⟨⟨"tcp://a"⟩, ⟨"queue://a"⟩⟩, secondary := some ⟨⟨"tcp://b"⟩, ⟨"queue://b"⟩⟩
            tertiary := some ⟨⟨"tcp://c"⟩, ⟨"queue://c"⟩⟩ },
          { name := "b", primary := ⟨⟨"tcp://b"⟩, ⟨"queue://b"⟩⟩, secondary := some ⟨⟨"tcp://c"⟩, ⟨"queue://c"⟩⟩
            tertiary := some ⟨⟨"tcp://a"⟩, ⟨"queue://a"⟩⟩ },
          { name := "c", primary := ⟨⟨"tcp://c"⟩, ⟨"queue://c"⟩⟩, secondary := some ⟨⟨"tcp://a"⟩, ⟨"queue://a"⟩⟩
            tertiary := some ⟨⟨"tcp://b"⟩, ⟨"queue://b"⟩⟩ } ]
      populated := by simp }
  built := by rfl
  apart := by decide
  partitioner := .xxh3
  setup := .standard

/-- A write that may not be refused and does not expire. -/
def Write.lasting (key : String) (data : Bytes) (parents : List Version) : Write :=
  { key, data, parents := some parents, expiresAt := none, optimistic := false, assigned := none }

theorem Ring.trio_identified : Ring.trio.Identified := by
  unfold Ring.Identified
  decide +kernel

end ReplicaRing
