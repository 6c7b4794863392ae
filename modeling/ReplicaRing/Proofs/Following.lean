import ReplicaRing.Proofs.Likeness

/-! A replica under a single writer. As long as all writes to a shard are made by its primary, and
the clocks do not go back, each other holder has taken a prefix of what the primary told of, and
looks as the primary did right after that prefix. -/

namespace ReplicaRing
namespace Ring

variable {ring : Ring}

def about (ring : Ring) (shard : ring.Seat) (message : Message) : Bool :=
  message.keys.all fun key => ring.shardOf key = shard

/-- The clients' batches that a shard's primary has committed and told of. -/
def commits (ring : Ring) (deeds : List Deed) (shard : ring.Seat) : List Deed :=
  deeds.filter fun deed =>
    deed.here = ring.address shard && deed.origin = .client (ring.node shard) && !deed.news.isEmpty

def taken (ring : Ring) (deeds : List Deed) (seat shard : ring.Seat) : List Deed :=
  deeds.filter fun deed => deed.here = ring.address seat && deed.origin = .peer && ring.about shard deed.message

def waiting (ring : Ring) (mailbox : List Letter) (seat shard : ring.Seat) : List Letter :=
  mailbox.filter fun letter => letter.target = (ring.address seat).async && ring.about shard letter.message

/-- What was held of a key after some batches, if nothing was held before. -/
def entryAfter (deeds : List Deed) (key : String) : Entry :=
  (deeds.getLast?.map fun deed => deed.after.entry key).getD .vacant

theorem entryAfter_append (deeds : List Deed) (deed : Deed) (key : String) :
    entryAfter (deeds ++ [deed]) key = deed.after.entry key := by
  simp [entryAfter]

def Led (ring : Ring) (deeds : List Deed) (shard : ring.Seat) : Prop :=
  ∀ deed ∈ deeds, deed.origin = .client (ring.node shard) → deed.here = ring.address shard

instance (deeds : List Deed) (shard : ring.Seat) : Decidable (ring.Led deeds shard) :=
  inferInstanceAs (Decidable (∀ deed ∈ deeds, deed.origin = .client (ring.node shard) → deed.here = ring.address shard))

def Timely (deeds : List Deed) : Prop :=
  deeds.Pairwise (·.now ≤ ·.now)

private theorem Timely.last {deeds : List Deed} {deed : Deed} (timely : Timely (deeds ++ [deed])) :
    ∀ earlier ∈ deeds, earlier.now ≤ deed.now :=
  fun earlier noted => (List.pairwise_append.mp timely).2.2 earlier noted deed List.mem_cons_self

private theorem told_key {message : Message} (told : message.isEmpty = false) : ∃ key, key ∈ message.keys := by
  cases message with
  | writes writes =>
    cases writes with
    | nil => cases told
    | cons write _ => exact ⟨write.key, by simp [Message.keys, Message.written]⟩
  | removals removals =>
    cases removals with
    | nil => cases told
    | cons removal _ => exact ⟨removal.key, by simp [Message.keys, Message.removed]⟩

private theorem about_iff {message : Message} {shard other : ring.Seat} (told : message.isEmpty = false)
    (owned : ∀ key ∈ message.keys, ring.shardOf key = shard) : ring.about other message = true ↔ shard = other := by
  simp only [about, List.all_eq_true, decide_eq_true_eq]
  constructor
  · intro all
    obtain ⟨key, member⟩ := told_key told
    exact (owned key member).symm.trans (all key member)
  · intro equal
    obtain rfl := equal
    exact owned

/-- A replica of a shard, with regard to one key, in step with the primary. -/
structure Follows (ring : Ring) (shard seat : ring.Seat) (key : String) (scene : ring.Scene) : Prop where
  queue : (ring.taken scene.deeds seat shard).map (·.message) ++ (ring.waiting scene.mailbox seat shard).map (·.message) =
    (ring.commits scene.deeds shard).map Deed.news
  /-- Between two commits the primary has only lost what expired. -/
  chain : ∀ front deed back, ring.commits scene.deeds shard = front ++ deed :: back →
    (deed.before.entry key).Alike deed.now (entryAfter front key)
  fresh : ∀ deed ∈ ring.commits scene.deeds shard, ∀ write version, (write, version) ∈ deed.minted →
    ¬ (deed.before.entry key).Live version
  primary : ∀ now, (∀ deed ∈ scene.deeds, deed.now ≤ now) →
    ((scene.holdings shard).entry key).Alike now (entryAfter (ring.commits scene.deeds shard) key)
  replica : ∀ now, (∀ deed ∈ scene.deeds, deed.now ≤ now) →
    ((scene.holdings seat).entry key).Alike now
      (entryAfter ((ring.commits scene.deeds shard).take (ring.taken scene.deeds seat shard).length) key)

namespace Follows

variable {shard seat : ring.Seat} {key : String} {before after : ring.Scene}

theorem behind (follows : ring.Follows shard seat key before) :
    (ring.taken before.deeds seat shard).length ≤ (ring.commits before.deeds shard).length := by
  have lengths := congrArg List.length follows.queue
  simp only [List.length_append, List.length_map] at lengths
  omega

private theorem aside (follows : ring.Follows shard seat key before) {deed : Deed}
    (grown : after.deeds = before.deeds ++ [deed])
    (commits : ring.commits after.deeds shard = ring.commits before.deeds shard)
    (taken : ring.taken after.deeds seat shard = ring.taken before.deeds seat shard)
    (waiting : ring.waiting after.mailbox seat shard = ring.waiting before.mailbox seat shard)
    (primary : ∀ now, deed.now ≤ now →
      ((after.holdings shard).entry key).Alike now ((before.holdings shard).entry key))
    (replica : (after.holdings seat).entry key = (before.holdings seat).entry key) :
    ring.Follows shard seat key after := by
  have sooner {now : UInt64} (current : ∀ deed ∈ after.deeds, deed.now ≤ now) : ∀ deed ∈ before.deeds, deed.now ≤ now :=
    fun deed noted => current deed (grown ▸ List.mem_append_left _ noted)
  constructor
  · rw [taken, waiting, commits]
    exact follows.queue
  · rw [commits]
    exact follows.chain
  · rw [commits]
    exact follows.fresh
  · intro now current
    rw [commits]
    have last := current deed (grown ▸ List.mem_append_right _ List.mem_cons_self)
    exact (primary now last).trans (follows.primary now (sooner current))
  · intro now current
    rw [commits, taken, replica]
    exact follows.replica now (sooner current)

end Follows

section Moves

variable {shard seat : ring.Seat} {key : String} {scene : ring.Scene} {message : Message} {now : UInt64}

private theorem follows_commit (follows : ring.Follows shard seat key scene) (different : seat ≠ shard)
    (holds : ring.Holds seat shard) (own : ring.Holds shard shard)
    (owned : ∀ key ∈ message.keys, ring.shardOf key = shard)
    (timely : ∀ deed ∈ scene.deeds, deed.now ≤ now)
    (absent : ∀ write version, (write, version) ∈ (scene.holdings shard).stamped now message.written →
      ¬ ((scene.holdings shard).entry key).Live version)
    (distinct : (((scene.holdings shard).stamped now message.written).map (·.2)).Nodup) :
    ring.Follows shard seat key (scene.serve shard shard now message) := by
  generalize made : ring.deed shard (.client (ring.node shard)) now (scene.holdings shard) message = deed
  have deeds : (scene.serve shard shard now message).deeds = scene.deeds ++ [deed] := by rw [← made]; rfl
  have news : deed.news = (scene.holdings shard).news now message := by rw [← made]; rfl
  have here : deed.here = ring.address shard := by rw [← made]; rfl
  have origin : deed.origin = .client (ring.node shard) := by rw [← made]; rfl
  have taken : ring.taken (scene.deeds ++ [deed]) seat shard = ring.taken scene.deeds seat shard := by
    simp [Ring.taken, origin]
  have elsewhere : ((scene.serve shard shard now message).holdings seat).entry key = (scene.holdings seat).entry key := by
    simp [Scene.serve, Function.update_of_ne different]
  have mailbox : (scene.serve shard shard now message).mailbox = scene.mailbox ++ ring.mail shard shard deed.news := by
    rw [news]
    rfl
  cases told : deed.news.isEmpty with
  | true =>
    refine follows.aside deeds ?_ ?_ ?_ ?_ elsewhere
    · rw [deeds]
      simp [Ring.commits, told]
    · rw [deeds, taken]
    · rw [mailbox]
      simp [Ring.mail, Server.letters, told]
    · intro later order
      have current : now ≤ later := by
        rw [← made] at order
        exact order
      have untold := Holdings.take_untold current absent distinct (news ▸ told)
      simpa [Scene.serve] using untold
  | false =>
    have commits : ring.commits (scene.deeds ++ [deed]) shard = ring.commits scene.deeds shard ++ [deed] := by
      simp [Ring.commits, told, here, origin]
    have subject : ring.about shard deed.news = true :=
      (about_iff told fun key member => owned key (by rw [← made] at member; exact Deed.news_keys _ member)).mpr rfl
    have waiting : ring.waiting (scene.serve shard shard now message).mailbox seat shard =
        ring.waiting scene.mailbox seat shard ++ [{ target := (ring.address seat).async, message := deed.news }] := by
      rw [mailbox, Ring.waiting, List.filter_append, ← ring.mail_to told own.holder different holds]
      congr 1
      refine List.filter_congr fun letter sent => ?_
      rw [((ring.mem_mail own.holder).mp sent).2.1, subject, Bool.and_true]
    have before : deed.before = scene.holdings shard := by rw [← made]; rfl
    have clock : deed.now = now := by rw [← made]; rfl
    constructor
    · rw [deeds, taken, waiting, commits, List.map_append, List.map_append, ← List.append_assoc, follows.queue]
      rfl
    · intro front other back split
      rw [deeds, commits] at split
      rcases List.append_eq_append_iff.mp split with ⟨middle, rfl, rest⟩ | ⟨middle, held, rest⟩
      · obtain ⟨rfl, rfl, rfl⟩ : middle = [] ∧ other = deed ∧ back = [] := by
          cases middle with
          | nil => simpa using rest.symm
          | cons first middle => simp at rest
        rw [List.append_nil, before, clock]
        exact follows.primary now timely
      · cases middle with
        | nil =>
          obtain ⟨rfl, rfl⟩ : other = deed ∧ back = [] := by simpa using rest
          rw [List.append_nil] at held
          rw [← held, before, clock]
          exact follows.primary now timely
        | cons first middle =>
          simp only [List.cons_append, List.cons.injEq] at rest
          obtain ⟨rfl, _⟩ := rest
          exact follows.chain front other middle held
    · intro other member write version minted
      rw [deeds, commits] at member
      rcases List.mem_append.mp member with old | new
      · exact follows.fresh other old write version minted
      · rw [List.mem_singleton.mp new] at minted ⊢
        rw [before]
        apply absent write version
        rw [Deed.minted, origin] at minted
        rw [← made] at minted
        exact minted
    · intro later _
      rw [deeds, commits, entryAfter_append]
      have same : (scene.serve shard shard now message).holdings shard = deed.after := by
        rw [← made]
        simp [Scene.serve, Deed.after, Ring.deed]
      rw [same]
      exact .refl _
    · intro later current
      rw [deeds, taken, commits, elsewhere, List.take_append_of_le_length follows.behind]
      refine follows.replica later fun deed noted => current deed ?_
      rw [deeds]
      exact List.mem_append_left _ noted

/-- The replica takes in the next of what the primary told of. -/
private theorem follows_take (follows : ring.Follows shard seat key scene) (different : seat ≠ shard)
    {earlier later : List Letter}
    (mail : scene.mailbox = earlier ++ { target := (ring.address seat).async, message } :: later)
    (oldest : ∀ letter ∈ earlier, letter.target ≠ (ring.address seat).async)
    (subject : ring.about shard message = true) (timely : ∀ deed ∈ scene.deeds, deed.now ≤ now)
    (distinct : ∀ deed ∈ scene.deeds, (deed.minted.map (·.2)).Nodup) :
    ring.Follows shard seat key (scene.receive seat now message (earlier ++ later)) := by
  generalize made : ring.deed seat .peer now (scene.holdings seat) message = deed
  have deeds : (scene.receive seat now message (earlier ++ later)).deeds = scene.deeds ++ [deed] := by rw [← made]; rfl
  have commits : ring.commits (scene.deeds ++ [deed]) shard = ring.commits scene.deeds shard := by
    simp [Ring.commits, ← made, Ring.deed]
  have taken : ring.taken (scene.deeds ++ [deed]) seat shard = ring.taken scene.deeds seat shard ++ [deed] := by
    simp [Ring.taken, ← made, Ring.deed, subject]
  have others : ring.waiting earlier seat shard = [] := by
    rw [waiting, List.filter_eq_nil_iff]
    intro letter member same
    exact oldest letter member (by simpa using (Bool.and_eq_true_iff.mp same).1)
  have first : ring.waiting scene.mailbox seat shard =
      { target := (ring.address seat).async, message } :: ring.waiting later seat shard := by
    rw [mail, waiting, List.filter_append, ← waiting, others]
    simp [waiting, subject]
  have left : ring.waiting (earlier ++ later) seat shard = ring.waiting later seat shard := by
    rw [waiting, List.filter_append, ← waiting, others]
    rfl
  have queue := follows.queue
  rw [first, List.map_cons] at queue
  obtain ⟨front, rest, split, frontNews, restNews⟩ := List.map_eq_append_iff.mp queue.symm
  obtain ⟨next, back, rfl, told, _⟩ := List.map_eq_cons_iff.mp restNews
  have count : front.length = (ring.taken scene.deeds seat shard).length := by
    have lengths := congrArg List.length frontNews
    simpa using lengths
  have listed : next ∈ ring.commits scene.deeds shard := split ▸ List.mem_append_right _ List.mem_cons_self
  have noted : next ∈ scene.deeds := (List.mem_filter.mp listed).1
  have origin : next.origin = .client (ring.node shard) := by
    have both := (Bool.and_eq_true_iff.mp (List.mem_filter.mp listed).2).1
    simpa using (Bool.and_eq_true_iff.mp both).2
  have minted : next.minted = next.before.stamped next.now next.message.written := by
    rw [Deed.minted, origin]
  have elsewhere : ((scene.receive seat now message (earlier ++ later)).holdings shard).entry key =
      (scene.holdings shard).entry key := by
    simp [Scene.receive, Function.update_of_ne (Ne.symm different)]
  constructor
  · rw [deeds, taken, commits, List.map_append, List.append_assoc, ← follows.queue, first]
    change _ ++ (_ ++ (ring.waiting (earlier ++ later) seat shard).map _) = _
    rw [left, ← made]
    rfl
  · rw [deeds, commits]
    exact follows.chain
  · rw [deeds, commits]
    exact follows.fresh
  · intro moment current
    rw [deeds, commits, elsewhere]
    refine follows.primary moment fun deed noted => current deed ?_
    rw [deeds]
    exact List.mem_append_left _ noted
  · intro moment current
    have order : now ≤ moment := by
      have last := current deed (by rw [deeds]; exact List.mem_append_right _ List.mem_cons_self)
      rw [← made] at last
      exact last
    have prefixes : (ring.commits scene.deeds shard).take (ring.taken scene.deeds seat shard ++ [deed]).length =
        front ++ [next] := by
      rw [split, List.length_append, ← count, List.length_singleton, List.take_length_add_append]
      rfl
    have before : (ring.commits scene.deeds shard).take (ring.taken scene.deeds seat shard).length = front := by
      rw [split, ← count, List.take_left']
      rfl
    have held := follows.replica now timely
    rw [before] at held
    have start := (follows.chain front next back split).later (timely next noted)
    have alike := Holdings.take_alike (timely next noted)
      (fun write version member => follows.fresh next listed write version (minted ▸ member))
      (minted ▸ distinct next noted) (start.trans held.symm)
    rw [deeds, commits, taken, prefixes, entryAfter_append]
    have copied : next.before.news next.now next.message = message := told
    have same : (scene.receive seat now message (earlier ++ later)).holdings seat =
        (scene.holdings seat).take now message := by
      simp [Scene.receive]
    rw [copied] at alike
    rw [same]
    exact alike.symm.later order

private theorem untouched {held : Holdings} {other : ring.Seat} (foreign : other ≠ shard)
    (keys : ∀ key ∈ message.keys, ring.shardOf key = other) (owned : ring.shardOf key = shard) :
    (held.take now message).entry key = held.entry key :=
  Holdings.take_other fun member => foreign ((keys key member).symm.trans owned)

private theorem follows_serve_other (follows : ring.Follows shard seat key scene) {place other : ring.Seat}
    (own : ring.Holds place other) (keys : ∀ key ∈ message.keys, ring.shardOf key = other)
    (owned : ring.shardOf key = shard) (foreign : other ≠ shard) :
    ring.Follows shard seat key (scene.serve place other now message) := by
  have apart : ring.node other ≠ ring.node shard := fun same => foreign (ring.node_inj same)
  have frame (seat : ring.Seat) : ((scene.serve place other now message).holdings seat).entry key =
      (scene.holdings seat).entry key := by
    by_cases here : seat = place
    · subst here
      simpa [Scene.serve] using untouched foreign keys owned
    · simp [Scene.serve, Function.update_of_ne here]
  apply follows.aside rfl
  · simp [Ring.commits, Scene.serve, Ring.deed, apart]
  · simp [Ring.taken, Scene.serve, Ring.deed]
  · have none : (ring.mail place other ((scene.holdings place).news now message)).filter (fun letter =>
        letter.target = (ring.address seat).async && ring.about shard letter.message) = [] := by
      rw [List.filter_eq_nil_iff]
      intro letter sent counted
      obtain ⟨told, content, _⟩ := (ring.mem_mail own.holder).mp sent
      have subject := (Bool.and_eq_true_iff.mp counted).2
      rw [content] at subject
      refine foreign ((about_iff told fun key member => keys key ?_).mp subject)
      exact (ring.deed place (.client (ring.node other)) now (scene.holdings place) message).news_keys member
    rw [Scene.serve, waiting, List.filter_append, ← waiting, none, List.append_nil]
  · intro later _
    rw [frame]
    exact .refl _
  · exact frame seat

private theorem follows_receive_other (follows : ring.Follows shard seat key scene) {place other : ring.Seat}
    {earlier later : List Letter}
    (mail : scene.mailbox = earlier ++ { target := (ring.address place).async, message } :: later)
    (told : message.isEmpty = false) (keys : ∀ key ∈ message.keys, ring.shardOf key = other)
    (owned : ring.shardOf key = shard) (elsewhere : other = shard → place ≠ seat ∧ place ≠ shard) :
    ring.Follows shard seat key (scene.receive place now message (earlier ++ later)) := by
  have subject : ring.about shard message = true ↔ other = shard := about_iff told keys
  have uncounted : ¬ (ring.address place = ring.address seat ∧ ring.about shard message = true) :=
    fun both => (elsewhere (subject.mp both.2)).1 (ring.address_inj both.1)
  have frame (own : ring.Seat) (either : own = seat ∨ own = shard) :
      ((scene.receive place now message (earlier ++ later)).holdings own).entry key = (scene.holdings own).entry key := by
    by_cases same : own = place
    · subst same
      have foreign : other ≠ shard := fun equal => either.elim (elsewhere equal).1 (elsewhere equal).2
      simpa [Scene.receive] using untouched foreign keys owned
    · simp [Scene.receive, Function.update_of_ne same]
  apply follows.aside rfl
  · simp [Ring.commits, Scene.receive, Ring.deed]
  · have skipped : ring.taken [ring.deed place .peer now (scene.holdings place) message] seat shard = [] := by
      rw [Ring.taken, List.filter_eq_nil_iff]
      intro deed member counted
      rw [List.mem_singleton.mp member] at counted
      simp only [Bool.and_eq_true, decide_eq_true_eq] at counted
      exact uncounted ⟨counted.1.1, counted.2⟩
    rw [Scene.receive, Ring.taken, List.filter_append, ← Ring.taken, ← Ring.taken, skipped, List.append_nil]
  · rw [mail, Scene.receive, waiting, waiting, List.filter_append, List.filter_append, List.filter_cons_of_neg]
    intro counted
    simp only [Bool.and_eq_true, decide_eq_true_eq] at counted
    exact (elsewhere (subject.mp counted.2)).1 (ring.async_inj counted.1)
  · intro later _
    rw [frame shard (Or.inr rfl)]
    exact .refl _
  · exact frame seat (Or.inl rfl)

end Moves

private theorem Move.follows {before after : ring.Scene} (move : ring.Move before after) (played : ring.Played before)
    (numbered : ring.Numbered after) {shard seat : ring.Seat} {key : String} (different : seat ≠ shard)
    (holds : ring.Holds seat shard) (owned : ring.shardOf key = shard) (led : ring.Led after.deeds shard)
    (timely : Timely after.deeds) (follows : ring.Follows shard seat key before) : ring.Follows shard seat key after := by
  cases move with
  | @served place other message now own sound unassigned keys =>
    by_cases mine : other = shard
    · subst mine
      obtain rfl : place = other := ring.address_inj (led _ (List.mem_append_right _ List.mem_cons_self) rfl)
      have distinct := numbered.distinct
      have minted : mintedIn (before.serve place place now message).deeds =
          mintedIn before.deeds ++ (before.holdings place).stamped now message.written := by
        simp [mintedIn, Scene.serve, Ring.deed, Deed.minted]
      rw [minted, List.map_append, List.nodup_append] at distinct
      refine follows_commit follows different holds own keys (Timely.last timely) ?_ distinct.2.1
      intro write version member live
      obtain ⟨first, inside, _⟩ := played.live_minted live
      exact distinct.2.2 version (List.mem_map.mpr ⟨_, inside, rfl⟩) version (List.mem_map.mpr ⟨_, member, rfl⟩) rfl
    · exact follows_serve_other follows own keys owned mine
  | @received place message earlier later now mail oldest sound =>
    obtain ⟨target, inbox, source, told, tells⟩ := played.traced.mail { target := (ring.address place).async, message }
      (mail ▸ List.mem_append_right _ List.mem_cons_self)
    cases ring.async_inj inbox
    obtain ⟨origin, other, serves, _, elsewhere⟩ := tells.served
    have keys : ∀ key ∈ message.keys, ring.shardOf key = other := by
      intro key member
      have copied : message = source.news := tells.news
      exact serves.owned key (source.news_keys (copied ▸ member))
    by_cases mine : other = shard ∧ place = seat
    · obtain ⟨rfl, rfl⟩ := mine
      have subject := (about_iff tells.told keys).mpr rfl
      refine follows_take follows different mail oldest subject (Timely.last timely) fun earlier noted => ?_
      exact numbered.distinct_own (List.mem_append_left _ noted)
    · apply follows_receive_other follows mail tells.told keys owned
      intro equal
      obtain rfl := equal
      -- the primary itself is never told, since it alone tells of its shard
      refine ⟨fun same => mine ⟨rfl, same⟩, fun same => elsewhere (same.trans (ring.address_inj ?_))⟩
      exact (led source (List.mem_append_left _ told) serves.origin).symm.trans serves.here

theorem Played.follows {scene : ring.Scene} (played : ring.Played scene) (identified : ring.Identified)
    (bounded : ring.Bounded scene.deeds) {shard seat : ring.Seat} {key : String} (different : seat ≠ shard)
    (holds : ring.Holds seat shard) (owned : ring.shardOf key = shard) (led : ring.Led scene.deeds shard)
    (timely : Timely scene.deeds) : ring.Follows shard seat key scene := by
  induction played with
  | refl =>
    exact ⟨rfl, fun front deed back split => absurd split (by simp [Scene.opening, Ring.commits]),
      fun _ member => (by cases member), fun _ _ => .refl _, fun _ _ => .refl _⟩
  | tail earlier move ih =>
    obtain ⟨deed, grown⟩ := move.grown
    have numbered := Played.numbered (Relation.ReflTransGen.tail earlier move) identified bounded
    refine move.follows earlier numbered different holds owned led timely (ih ?_ ?_ ?_)
    · exact Bounded.of_append (grown ▸ bounded)
    · exact fun old noted => led old (grown ▸ List.mem_append_left _ noted)
    · exact (List.pairwise_append.mp (show (_ ++ [deed]).Pairwise _ from grown ▸ timely)).1

theorem Reached.timely {chronicle : Chronicle} (reached : ring.Reached chronicle)
    (clock : chronicle.turns.Pairwise (·.now ≤ ·.now)) :
    Timely chronicle.deeds ∧ ∀ deed ∈ chronicle.deeds, ∃ turn ∈ chronicle.turns, deed.now = turn.now := by
  induction reached with
  | start => exact ⟨.nil, fun _ noted => by cases noted⟩
  | @step before now action _ ih =>
    obtain ⟨earlier, _, order⟩ := List.pairwise_append.mp clock
    obtain ⟨timely, stamped⟩ := ih earlier
    have fresh : ∀ deed ∈ Cluster.deeds ring.client now action before.cluster, deed.now = now :=
      fun deed noted => (Cluster.deeds_told noted).1
    constructor
    · refine List.pairwise_append.mpr ⟨timely, ?_, fun old noted deed new => ?_⟩
      · exact List.pairwise_of_forall_mem_list fun first left second right => by
          rw [fresh first left, fresh second right]
          exact UInt64.le_refl now
      · obtain ⟨turn, taken, same⟩ := stamped old noted
        rw [same, fresh deed new]
        exact order turn taken _ List.mem_cons_self
    · intro deed noted
      rcases List.mem_append.mp noted with old | new
      · obtain ⟨turn, taken, same⟩ := stamped deed old
        exact ⟨turn, List.mem_append_left _ taken, same⟩
      · exact ⟨_, List.mem_append_right _ List.mem_cons_self, fresh deed new⟩

/-- If all writes to a shard are made by its primary, each other holder has taken a prefix of what the
primary told of and looks as the primary did after that prefix. Without mail for it, a read there
answers as a read at the primary does. -/
theorem replica_follows_primary (ring : Ring) (identified : ring.Identified) {chronicle : Chronicle}
    (reached : ring.Reached chronicle) (bounded : ring.Bounded chronicle.deeds)
    (clock : chronicle.turns.Pairwise (·.now ≤ ·.now)) {key : String} (led : ring.Led chronicle.deeds (ring.shardOf key))
    {seat : ring.Seat} (holds : ring.Holds seat (ring.shardOf key)) (different : seat ≠ ring.shardOf key) {now : UInt64}
    (current : ∀ turn ∈ chronicle.turns, turn.now ≤ now) :
    let commits := ring.commits chronicle.deeds (ring.shardOf key)
    let taken := ring.taken chronicle.deeds seat (ring.shardOf key)
    ∃ primary replica, chronicle.cluster.servers[(ring.shardOf key : Nat)]? = some primary ∧
      chronicle.cluster.servers[(seat : Nat)]? = some replica ∧
      taken.map (·.message) = (commits.take taken.length).map (·.news) ∧
      (replica.store.table.entry key).Alike now (entryAfter (commits.take taken.length) key) ∧
      ((∀ letter ∈ chronicle.cluster.network.mailbox, letter.target ≠ (ring.address seat).async) →
        ∀ version, ∃ own other, (primary.answer .never now (.read [{ key, version }])).answer = .values [own] ∧
          (replica.answer .never now (.read [{ key, version }])).answer = .values [other] ∧
          other.map Value.undated = own.map Value.undated) := by
  intro commits taken
  obtain ⟨timely, stamped⟩ := reached.timely clock
  have follows := reached.played.follows identified bounded different holds rfl led timely
  have settled : ∀ deed ∈ chronicle.deeds, deed.now ≤ now := by
    intro deed noted
    obtain ⟨turn, listed, same⟩ := stamped deed noted
    exact same ▸ current turn listed
  obtain ⟨primary, foundPrimary, _⟩ := reached.housed.seated (ring.shardOf key)
  obtain ⟨replica, foundReplica, _⟩ := reached.housed.seated seat
  have atPrimary : ((ring.holdings chronicle.cluster (ring.shardOf key)).entry key).Alike now (entryAfter commits key) :=
    follows.primary now settled
  have atReplica : ((ring.holdings chronicle.cluster seat).entry key).Alike now
      (entryAfter (commits.take taken.length) key) := follows.replica now settled
  rw [holdings_seated foundPrimary] at atPrimary
  rw [holdings_seated foundReplica] at atReplica
  have queue : taken.map (·.message) ++ (ring.waiting chronicle.cluster.network.mailbox seat (ring.shardOf key)).map (·.message) =
      commits.map Deed.news := follows.queue
  refine ⟨primary, replica, foundPrimary, foundReplica, ?_, atReplica, ?_⟩
  · rw [List.map_take, ← queue, List.take_left']
    exact List.length_map _
  · intro quiet version
    have none : ring.waiting chronicle.cluster.network.mailbox seat (ring.shardOf key) = [] := by
      rw [waiting, List.filter_eq_nil_iff]
      intro letter waits counted
      exact quiet letter waits (by simpa using (Bool.and_eq_true_iff.mp counted).1)
    have all : commits.take taken.length = commits := by
      rw [none, List.map_nil, List.append_nil] at queue
      have lengths := congrArg List.length queue
      simp only [List.length_map] at lengths
      rw [lengths, List.take_length]
    rw [all] at atReplica
    have answered (server : Server) : (server.answer .never now (.read [{ key, version }])).answer =
        .values [(server.holdings.entry key).read version now] := by
      obtain ⟨store, _, shape⟩ := server.read_answered now [{ key, version }]
      rw [Server.answer, shape]
      rfl
    exact ⟨_, _, answered primary, answered replica, (atReplica.trans atPrimary.symm).read version⟩

/-- The second machine is down while the first one takes a second write. -/
def lagging : Chronicle :=
  .play .trio
    [(1, .write [.lasting "k3" [1] []]),
     (2, .deliver),
     (3, .down { sync := ⟨"tcp://b"⟩, async := ⟨"queue://b"⟩ }),
     (4, .write [.lasting "k3" [2] [{ store := .ofName "a", number := 1 }]]),
     (5, .deliver)]

theorem lagging_follows :
    let commits := Ring.trio.commits lagging.deeds (Ring.trio.shardOf "k3")
    let taken := Ring.trio.taken lagging.deeds ⟨1, by decide⟩ (Ring.trio.shardOf "k3")
    ∃ primary replica, lagging.cluster.servers[(Ring.trio.shardOf "k3" : Nat)]? = some primary ∧
      lagging.cluster.servers[1]? = some replica ∧
      taken.map (·.message) = (commits.take taken.length).map (·.news) ∧
      (replica.store.table.entry "k3").Alike 6 (entryAfter (commits.take taken.length) "k3") ∧
      ((∀ letter ∈ lagging.cluster.network.mailbox, letter.target ≠ ⟨"queue://b"⟩) →
        ∀ version, ∃ own other, (primary.answer .never 6 (.read [{ key := "k3", version }])).answer = .values [own] ∧
          (replica.answer .never 6 (.read [{ key := "k3", version }])).answer = .values [other] ∧
          other.map Value.undated = own.map Value.undated) := by
  have reached : Ring.trio.Reached lagging := .play .trio _
  have bounded : Ring.trio.Bounded lagging.deeds := by decide +kernel
  have clock : lagging.turns.Pairwise (·.now ≤ ·.now) := by decide +kernel
  have led : Ring.trio.Led lagging.deeds (Ring.trio.shardOf "k3") := by decide +kernel
  have holds : Ring.trio.Holds ⟨1, by decide⟩ (Ring.trio.shardOf "k3") := ⟨rfl, by decide +kernel⟩
  have different : (⟨1, by decide⟩ : Ring.trio.Seat) ≠ Ring.trio.shardOf "k3" := by decide +kernel
  have current : ∀ turn ∈ lagging.turns, turn.now ≤ 6 := by decide +kernel
  exact replica_follows_primary .trio trio_identified reached bounded clock led holds different current

end Ring
end ReplicaRing
