import ReplicaRing.Proofs.Roaming

/-! Copies of optimistic writes. A write may be accepted by one holder and its copy still be refused by another
one, since the copy is as optimistic as the write was and may meet siblings there that the writer's holder did
not have. Nothing else keeps a copy from being taken in. -/

namespace ReplicaRing

namespace Entry

variable {entry : Entry} {write : Write} {parents : List Version} {version : Version} {now : UInt64}

/-- Where nothing expires, a write is refused for the sake of a live sibling that it does not supersede. -/
theorem write_refused_iff (lasting : ∀ value ∈ entry.values, value.expiresAt = none) :
    (entry.write write parents version now).1.version = none ↔
      write.optimistic = true ∧ ¬ (entry.Live version ∨ entry.Retired version) ∧
        ∃ sibling, entry.Live sibling ∧ sibling ∉ parents := by
  have present : entry.unexpired now = entry.values := by
    apply List.filter_eq_self.mpr
    intro value member
    simp [isExpired_of_lasting (lasting value member)]
  have conflict : conflicts (entry.unexpired now) parents version = true ↔
      ¬ entry.Live version ∧ ∃ sibling, entry.Live sibling ∧ sibling ∉ parents := by
    rw [present]
    simp [conflicts, Live]
  rcases write_cases entry write parents version now with ⟨retired, same⟩ | ⟨fresh, refused, optimistic, same⟩ |
    ⟨fresh, granted, same⟩
  all_goals rw [same]
  · simp [retired]
  · have sibling := conflict.mp refused
    simp [fresh, optimistic, sibling]
  · simp only [reduceCtorEq, false_iff]
    intro refused
    obtain ⟨optimistic, unknown, sibling⟩ := refused
    have firm := granted (conflict.mpr ⟨fun live => unknown (Or.inl live), sibling⟩)
    rw [firm] at optimistic
    cases optimistic

end Entry

theorem Holdings.enterAll_append (now : UInt64) (held : Holdings) (front back : List Write) :
    held.enterAll now (front ++ back) = (held.enterAll now front).enterAll now back :=
  List.foldl_append

theorem Holdings.stamped_append (now : UInt64) (held : Holdings) (front back : List Write) :
    held.stamped now (front ++ back) = held.stamped now front ++ (held.enterAll now front).stamped now back := by
  induction front generalizing held with
  | nil => rfl
  | cons write front ih => simp [stamped, ih, enterAll_cons]

namespace Deed

def Grants (deed : Deed) (write : Write) (version : Version) : Prop :=
  ∃ result, (write, result) ∈ deed.message.written.zip (deed.before.results deed.now deed.message.written) ∧
    result.version = some version

/-- A copy in the batch finds what the writes ahead of it have left. -/
def Meets (deed : Deed) (copy : Write) (held : Holdings) : Prop :=
  ∃ front back, deed.message = .writes (front ++ copy :: back) ∧ held = deed.before.enterAll deed.now front

theorem copy_granted {deed : Deed} {copy : Write} (member : copy ∈ deed.news.written) :
    ∃ write version, deed.Grants write version ∧ copy = { write with assigned := some version } := by
  rw [news, Holdings.news_written] at member
  obtain ⟨write, result, version, paired, accepted, same⟩ := Server.mem_copies member
  exact ⟨write, version, ⟨result, paired, accepted⟩, same⟩

namespace Meets

variable {deed : Deed} {copy : Write} {held : Holdings}

theorem written (meets : deed.Meets copy held) : copy ∈ deed.message.written := by
  obtain ⟨front, back, message, _⟩ := meets
  rw [message]
  exact List.mem_append_right _ List.mem_cons_self

theorem stamped (meets : deed.Meets copy held) :
    (copy, held.stamp copy) ∈ deed.before.stamped deed.now deed.message.written := by
  obtain ⟨front, back, message, rfl⟩ := meets
  rw [message, Message.written, Holdings.stamped_append]
  exact List.mem_append_right _ List.mem_cons_self

theorem keeps (meets : deed.Meets copy held) (property : Entry → Prop) {key : String}
    (kept : ∀ write version entry, (write, version) ∈ deed.before.stamped deed.now deed.message.written →
      write.key = key → property entry → property (entry.write write (write.parents.getD []) version deed.now).2)
    (before : property ((held.enter deed.now copy).entry key)) : property (deed.after.entry key) := by
  obtain ⟨front, back, message, rfl⟩ := meets
  rw [message] at kept
  rw [Deed.after, message, Holdings.take, Holdings.enterAll_append]
  apply Holdings.enterAll_keeps property _ before
  intro write version entry member
  apply kept
  rw [Message.written, Holdings.stamped_append]
  exact List.mem_append_right _ (List.mem_cons_of_mem _ member)

theorem founded (meets : deed.Meets copy held) {deeds : List Deed} (before : Founded deeds deed.before)
    (known : ∀ write version, (write, version) ∈ deed.before.stamped deed.now deed.message.written →
      ∃ original, (original, version) ∈ mintedIn deeds ∧ original.Sound ∧
        write = { original with assigned := write.assigned }) : Founded deeds held := by
  obtain ⟨front, back, message, rfl⟩ := meets
  have ahead : Founded deeds (deed.before.take deed.now (.writes front)) := by
    apply before.take deed.now
    intro write version member
    apply known
    rw [message, Message.written, Holdings.stamped_append]
    exact List.mem_append_left _ member
  exact ahead

end Meets
end Deed

namespace Cluster.Ran

variable {topology : Topology} {setup : Setup} {chronicle : Chronicle}

theorem minted_offered (ran : Ran topology setup chronicle) {write : Write} {version : Version}
    (minted : (write, version) ∈ mintedIn chronicle.deeds) : ∃ turn ∈ chronicle.turns, write ∈ turn.action.writes := by
  induction ran with
  | start => cases minted
  | step client now action _ ih =>
    rw [Chronicle.step, mintedIn_append] at minted
    rcases List.mem_append.mp minted with old | new
    · obtain ⟨turn, taken, offered⟩ := ih old
      exact ⟨turn, List.mem_append_left _ taken, offered⟩
    · obtain ⟨deed, noted, own⟩ := List.mem_flatMap.mp new
      obtain ⟨_, peer | ⟨offers, _⟩⟩ := deeds_told noted
      · exact absurd peer (Deed.client_of_minted own)
      · exact ⟨_, List.mem_append_right _ (List.mem_singleton.mpr rfl), offers.1 write (Deed.written_of_minted own)⟩

/-- As long as no write expires, no letter is turned away as a whole, and each copy in it is of a write that some holder
accepted. It is refused if and only if it is optimistic, its version has not come here before, and it meets a live
sibling that it does not supersede. Otherwise its version is live or retired here afterwards. -/
theorem copy_refused_iff (ran : Ran topology setup chronicle)
    (lasting : ∀ turn ∈ chronicle.turns, ∀ write ∈ turn.action.writes, write.expiresAt = none) :
    (∀ letter ∈ chronicle.cluster.network.mailbox, Server.accepts .peer letter.message = true) ∧
      ∀ deed ∈ chronicle.deeds, deed.origin = .peer → ∀ copy held, deed.Meets copy held →
        ∃ version, copy.assigned = some version ∧
          (∃ source ∈ chronicle.deeds, source.origin ≠ .peer ∧ source.Grants { copy with assigned := none } version) ∧
          ((held.result deed.now copy).version = none ↔
            copy.optimistic = true ∧ ¬ ((held.entry copy.key).Live version ∨ (held.entry copy.key).Retired version) ∧
              ∃ sibling, (held.entry copy.key).Live sibling ∧ sibling ∉ copy.parents.getD []) ∧
          ((held.result deed.now copy).version ≠ none →
            (deed.after.entry copy.key).Live version ∨ (deed.after.entry copy.key).Retired version) := by
  have forever {write : Write} {version : Version} (minted : (write, version) ∈ mintedIn chronicle.deeds) :
      write.expiresAt = none := by
    obtain ⟨turn, taken, offered⟩ := ran.minted_offered minted
    exact lasting turn taken write offered
  constructor
  · intro letter waits
    obtain ⟨source, _, original, told⟩ := ran.traced.mail letter waits
    rw [told]
    exact Server.accepts_iff.mpr ⟨original.sound.news _ _, nofun⟩
  · intro deed noted peer copy held meets
    rcases ran.traced.deeds deed noted with original | ⟨_, source, told, original, news⟩
    · exact absurd peer original.client
    obtain ⟨write, version, grants, rfl⟩ := Deed.copy_granted (news ▸ meets.written)
    have stamp : held.stamp { write with assigned := some version } = version := rfl
    have known (other : Write) (given : Version)
        (member : (other, given) ∈ deed.before.stamped deed.now deed.message.written) := ran.traced.stamped noted member
    -- whatever the copy meets was stored for a client's write, and so does not expire
    have siblings : ∀ value ∈ (held.entry write.key).values, value.expiresAt = none := by
      intro value member
      obtain ⟨other, minted, _, same⟩ := meets.founded (ran.rooted.before deed noted) known write.key value member
      exact (congrArg Imprint.expiresAt same).trans (forever minted)
    have endures {other : Write} {given : Version}
        (member : (other, given) ∈ deed.before.stamped deed.now deed.message.written) : other.expiresAt = none := by
      obtain ⟨original, minted, _, same⟩ := known other given member
      have lasts := forever minted
      rw [same]
      exact lasts
    refine ⟨version, rfl, ⟨source, told, original.client, ?_⟩, ?_, ?_⟩
    · have unassigned : write.assigned = none := by
        obtain ⟨_, paired, _⟩ := grants
        exact original.unassigned write (List.of_mem_zip paired).1
      have same : { write with assigned := none } = write := by rw [← unassigned]
      rw [same]
      exact grants
    · exact Entry.write_refused_iff siblings
    · intro accepted
      apply Entry.Knows.live_or_retired
      apply meets.keeps (·.Knows version)
      · intro other given entry member _ old
        exact Entry.write_keeps_known old fun _ => endures member
      · rw [Holdings.enter_entry, if_pos rfl]
        exact Entry.write_known_of_accepted accepted (endures meets.stamped)

/-- An optimistic write that the first machine accepts, and another write that the second one takes in for it before
the copy of the first one has come. -/
def crossing : Chronicle :=
  .play .trio
    [(0, .write [{ Write.lasting "k3" [1] [] with optimistic := true }]),
     (0, .down { sync := ⟨"tcp://a"⟩, async := ⟨"queue://a"⟩ }),
     (0, .write [.lasting "k3" [2] []]),
     (0, .up { sync := ⟨"tcp://a"⟩, async := ⟨"queue://a"⟩ }),
     (0, .deliver)]

/-- The second machine never gets the first write. -/
theorem crossing_refused :
    Ring.trio.Identified ∧ Ring.trio.Reached crossing ∧
      (∀ turn ∈ crossing.turns, ∀ write ∈ turn.action.writes, write.expiresAt = none) ∧
      ¬ ∀ deed ∈ crossing.deeds, deed.origin = .peer → ∀ copy ∈ deed.message.written, ∀ version ∈ copy.assigned,
        (deed.after.entry copy.key).Live version ∨ (deed.after.entry copy.key).Retired version :=
  ⟨Ring.trio_identified, .play .trio _, by decide +kernel, by decide +kernel⟩

private def crossed : Write :=
  { Write.lasting "k3" [1] [] with optimistic := true, assigned := some { store := .ofName "a", number := 1 } }

theorem crossing_refused_iff :
    ∃ deed ∈ crossing.deeds, deed.origin = .peer ∧ deed.Meets crossed deed.before ∧
      (deed.before.entry "k3").Live { store := .ofName "b", number := 1 } ∧
      (deed.before.result deed.now crossed).version = none := by
  have ran : Ran Ring.trio.topology Ring.trio.setup crossing := (Ring.Reached.play .trio _).ran
  have lasting : ∀ turn ∈ crossing.turns, ∀ write ∈ turn.action.writes, write.expiresAt = none := by decide +kernel
  have taken : ∃ deed ∈ crossing.deeds, deed.origin = .peer ∧ deed.message = .writes [crossed] ∧
      (deed.before.entry "k3").Live { store := .ofName "b", number := 1 } ∧
      ¬ ((deed.before.entry "k3").Live { store := .ofName "a", number := 1 } ∨
        (deed.before.entry "k3").Retired { store := .ofName "a", number := 1 }) := by decide +kernel
  obtain ⟨deed, noted, peer, message, sibling, unknown⟩ := taken
  have meets : deed.Meets crossed deed.before := ⟨[], [], message, rfl⟩
  obtain ⟨version, assigned, _, refused, _⟩ := (copy_refused_iff ran lasting).2 deed noted peer crossed _ meets
  cases assigned
  exact ⟨deed, noted, peer, meets, sibling, refused.mpr ⟨rfl, unknown, _, sibling, List.not_mem_nil⟩⟩

end Cluster.Ran
end ReplicaRing
