import ReplicaRing.Proofs.Rings

/-! Who is sent a copy of a client's write. A holder of the shard tells every other holder, each
by one letter, and nobody else. Which part a machine plays is seen by where it answers calls, and
whom it tells by where mail is taken in, so this takes machines of which neither tells more than the other. -/

namespace ReplicaRing

/-- Neither endpoint of a machine tells more than the other, among the holders of a shard and one more machine. -/
def Node.Matched (destination : Node) (here : Address) : Prop :=
  ∀ first ∈ here :: destination.holders, ∀ second ∈ here :: destination.holders,
    first.sync = second.sync ↔ first.async = second.async

instance (destination : Node) (here : Address) : Decidable (destination.Matched here) :=
  inferInstanceAs (Decidable (∀ first ∈ here :: destination.holders, ∀ second ∈ here :: destination.holders,
    first.sync = second.sync ↔ first.async = second.async))

theorem Node.otherReplica_none {node : Node} {sync : Endpoint} (foreign : ∀ holder ∈ node.holders, holder.sync ≠ sync) :
    node.otherReplica sync = none := by
  have apart (place : Option Address) (listed : ∀ address ∈ place.toList, address ∈ node.holders) :
      ¬ isReplica place sync = true := by
    simp only [isReplica, Option.any_eq_true, decide_eq_true_eq, not_exists, not_and]
    exact fun address found => foreign address (listed address (Option.mem_toList.mpr found))
  have second := apart node.secondary fun address member => by simp [holders, member]
  have third := apart node.tertiary fun address member => by simp [holders, member]
  rw [otherReplica, if_neg second, if_neg third]

namespace Dispatch

theorem mem_mailboxes {own endpoint : Endpoint} {found : List Endpoint} {addresses : List Address} :
    endpoint ∈ mailboxes own found addresses ↔
      endpoint ∈ found ∨ endpoint ≠ own ∧ ∃ address ∈ addresses, address.async = endpoint := by
  induction addresses generalizing found with
  | nil => simp [mailboxes]
  | cons address addresses ih =>
    simp only [mailboxes]
    by_cases fresh : (address.async ≠ own && !found.contains address.async) = true
    · rw [if_pos fresh, ih, List.mem_append, List.mem_singleton]
      simp only [ne_eq, decide_not, Bool.and_eq_true, Bool.not_eq_eq_eq_not, Bool.not_true,
        decide_eq_false_iff_not] at fresh
      constructor
      · intro before
        rcases before with (old | rfl) | ⟨foreign, other, member, same⟩
        · exact Or.inl old
        · exact Or.inr ⟨fresh.1, address, List.mem_cons_self, rfl⟩
        · exact Or.inr ⟨foreign, other, List.mem_cons_of_mem _ member, same⟩
      · intro before
        rcases before with old | ⟨foreign, other, member, same⟩
        · exact Or.inl (Or.inl old)
        · rcases List.mem_cons.mp member with rfl | later
          · exact Or.inl (Or.inr same.symm)
          · exact Or.inr ⟨foreign, other, later, same⟩
    · rw [if_neg fresh, ih]
      have known : address.async = own ∨ address.async ∈ found := by
        by_cases equal : address.async = own
        · exact Or.inl equal
        · exact Or.inr (by simpa [equal] using fresh)
      constructor
      · intro before
        rcases before with old | ⟨foreign, other, member, same⟩
        · exact Or.inl old
        · exact Or.inr ⟨foreign, other, List.mem_cons_of_mem _ member, same⟩
      · intro before
        rcases before with old | ⟨foreign, other, member, same⟩
        · exact Or.inl old
        · rcases List.mem_cons.mp member with rfl | later
          · rcases known with equal | old
            · exact absurd (same.symm.trans equal) foreign
            · exact Or.inl (same ▸ old)
          · exact Or.inr ⟨foreign, other, later, same⟩

theorem mailboxes_nodup {own : Endpoint} {found : List Endpoint} {addresses : List Address}
    (distinct : found.Nodup) : (mailboxes own found addresses).Nodup := by
  induction addresses generalizing found with
  | nil => exact distinct
  | cons address addresses ih =>
    simp only [mailboxes]
    split
    · next fresh =>
      refine ih (List.nodup_append.mpr ⟨distinct, by simp, ?_⟩)
      intro endpoint member other single
      rw [List.mem_singleton] at single
      subst single
      intro equal
      obtain rfl := equal
      simp [member] at fresh
    · exact ih distinct

theorem candidates_holders {destination : Node} {here address : Address}
    (candidate : address ∈ candidates destination here) : address ∈ destination.holders := by
  unfold candidates Node.otherReplica at candidate
  unfold Node.holders
  split at candidate
  · exact List.mem_cons_of_mem _ candidate
  · rcases List.mem_cons.mp candidate with rfl | other
    · exact List.mem_cons_self
    · refine List.mem_cons_of_mem _ (List.mem_append.mpr ?_)
      split at other
      · exact Or.inr other
      · split at other
        · exact Or.inl other
        · cases other

theorem holders_candidates {destination : Node} {here address : Address} (own : here ∈ destination.holders)
    (holder : address ∈ destination.holders) (elsewhere : address.sync ≠ here.sync) :
    address ∈ candidates destination here := by
  have replica (place : Option Address) (known : Address) (member : known ∈ place.toList) :
      Node.isReplica place known.sync = true := by
    simp_all [Node.isReplica]
  have absent (place : Option Address) (other : ¬ Node.isReplica place here.sync = true) : here ∉ place.toList :=
    fun member => other (replica place here member)
  have foreign (place : Option Address) (same : Node.isReplica place here.sync = true) : address ∉ place.toList := by
    intro member
    simp_all [Node.isReplica]
  unfold candidates Node.otherReplica
  unfold Node.holders at own holder
  simp only [List.mem_cons, List.mem_append] at own holder
  split
  · next primary =>
    rcases holder with rfl | inSecond | inThird
    · exact absurd (by simpa [Node.isPrimary] using primary) elsewhere
    · exact List.mem_append.mpr (Or.inl inSecond)
    · exact List.mem_append.mpr (Or.inr inThird)
  · next secondary =>
    rcases holder with rfl | replicas
    · exact List.mem_cons_self
    · apply List.mem_cons_of_mem _
      split
      · next second => exact replicas.resolve_left (foreign _ second)
      · next third =>
        have inThird : here ∈ destination.tertiary.toList := by
          rcases own with rfl | inSecond | inThird
          · simp [Node.isPrimary] at secondary
          · exact absurd inSecond (absent _ third)
          · exact inThird
        rw [if_pos (replica _ _ inThird)]
        exact replicas.resolve_right (foreign _ (replica _ _ inThird))

theorem targets_nodup (origin : Origin) (here : Address) : (Dispatch.of origin here).targets.Nodup := by
  cases origin with
  | client destination => exact mailboxes_nodup List.nodup_nil
  | peer => exact List.nodup_nil

theorem mem_targets {destination : Node} {here : Address} {endpoint : Endpoint} (own : here ∈ destination.holders)
    (told : ∀ holder ∈ destination.holders, holder.sync = here.sync → holder.async = here.async) :
    endpoint ∈ (Dispatch.of (.client destination) here).targets ↔
      endpoint ≠ here.async ∧ ∃ holder ∈ destination.holders, holder.async = endpoint := by
  simp only [Dispatch.of, mem_mailboxes, List.not_mem_nil, false_or]
  refine and_congr_right fun foreign => ?_
  constructor
  · intro listed
    obtain ⟨address, candidate, same⟩ := listed
    exact ⟨address, candidates_holders candidate, same⟩
  · intro listed
    obtain ⟨holder, member, rfl⟩ := listed
    exact ⟨holder, holders_candidates own member fun same => foreign (told holder member same), rfl⟩

theorem targets_stranger {destination : Node} {here : Address}
    (foreign : ∀ holder ∈ destination.holders, holder.sync ≠ here.sync)
    (inbox : destination.primary.async ≠ here.async) :
    (Dispatch.of (.client destination) here).targets = [destination.primary.async] := by
  have primary : ¬ destination.isPrimary here.sync = true := by
    simpa [Node.isPrimary] using foreign destination.primary List.mem_cons_self
  have only : candidates destination here = [destination.primary] := by
    rw [candidates, if_neg primary, Node.otherReplica_none foreign]
    rfl
  simp [Dispatch.of, only, mailboxes, inbox]

/-- A holder of a shard that takes in a client's write tells every other holder of it, none of them twice. Any other
machine that takes it in tells the owner alone. -/
theorem covers_every_other_holder (destination : Node) (here : Address) (matched : destination.Matched here) :
    (here ∈ destination.holders →
      (Dispatch.of (.client destination) here).targets.Nodup ∧
        ∀ endpoint, endpoint ∈ (Dispatch.of (.client destination) here).targets ↔
          endpoint ≠ here.async ∧ ∃ holder ∈ destination.holders, holder.async = endpoint) ∧
      (here ∉ destination.holders →
        (Dispatch.of (.client destination) here).targets = [destination.primary.async]) := by
  have told (holder : Address) (member : holder ∈ destination.holders) :
      holder.sync = here.sync ↔ holder.async = here.async :=
    matched holder (List.mem_cons_of_mem _ member) here List.mem_cons_self
  constructor
  · intro own
    exact ⟨targets_nodup _ _, fun _ => mem_targets own fun holder member => (told holder member).mp⟩
  · intro stranger
    -- A machine that answers where a holder answers takes in mail where that holder does, and so is the holder.
    have foreign (holder : Address) (member : holder ∈ destination.holders) : holder.sync ≠ here.sync := by
      intro same
      have equal : holder = here := congrArg₂ Address.mk same ((told holder member).mp same)
      exact stranger (equal ▸ member)
    have first : destination.primary ∈ destination.holders := List.mem_cons_self
    exact targets_stranger foreign fun same => foreign _ first ((told _ first).mpr same)

/-- Two machines in a ring too small for a third, whose first is named twice. -/
private def couple : Node where
  name := "a"
  primary := ⟨⟨"tcp://a"⟩, ⟨"queue://a"⟩⟩
  secondary := some ⟨⟨"tcp://b"⟩, ⟨"queue://b"⟩⟩
  tertiary := some ⟨⟨"tcp://a"⟩, ⟨"queue://a"⟩⟩

/-- The stand-in tells the owner, who is listed twice, once, and so does a machine that keeps no copy. -/
theorem couple_tells_once :
    (∀ endpoint, endpoint ∈ (Dispatch.of (.client couple) ⟨⟨"tcp://b"⟩, ⟨"queue://b"⟩⟩).targets ↔
      endpoint ≠ ⟨"queue://b"⟩ ∧ ∃ holder ∈ couple.holders, holder.async = endpoint) ∧
    (Dispatch.of (.client couple) ⟨⟨"tcp://b"⟩, ⟨"queue://b"⟩⟩).targets.Nodup ∧
    (Dispatch.of (.client couple) ⟨⟨"tcp://z"⟩, ⟨"queue://z"⟩⟩).targets = [⟨"queue://a"⟩] := by
  obtain ⟨tells, _⟩ := covers_every_other_holder couple ⟨⟨"tcp://b"⟩, ⟨"queue://b"⟩⟩ (by decide)
  obtain ⟨_, stranger⟩ := covers_every_other_holder couple ⟨⟨"tcp://z"⟩, ⟨"queue://z"⟩⟩ (by decide)
  obtain ⟨once, targets⟩ := tells (by decide)
  exact ⟨targets, once, stranger (by decide)⟩

end Dispatch

namespace Ring

variable (ring : Ring)

/-- Whether anybody takes in mail at an endpoint. -/
def takesMail (endpoint : Endpoint) : Bool :=
  ring.topology.nodes.any fun node => ring.setup.registers node && node.primary.async = endpoint

theorem takesMail_iff {endpoint : Endpoint} :
    ring.takesMail endpoint = true ↔
      ∃ seat, ring.Registered seat ∧ (ring.address seat).async = endpoint := by
  simp only [takesMail, List.any_eq_true, Bool.and_eq_true, decide_eq_true_eq]
  constructor
  · intro taken
    obtain ⟨node, member, registered, same⟩ := taken
    obtain ⟨seat, rfl⟩ := List.get_of_mem member
    exact ⟨seat, registered, same⟩
  · intro taken
    obtain ⟨seat, registered, same⟩ := taken
    exact ⟨ring.node seat, List.get_mem _ _, registered, same⟩

/-- The letters that a server at some seat sends about a client's batch and that somebody takes. -/
def mail (seat shard : ring.Seat) (message : Message) : List Letter :=
  (Server.letters (.of (.client (ring.node shard)) (ring.address seat)) message).filter
    fun letter => ring.takesMail letter.target

theorem mem_targets {seat shard : ring.Seat} {endpoint : Endpoint}
    (own : ring.address seat ∈ (ring.node shard).holders) :
    endpoint ∈ (Dispatch.of (.client (ring.node shard)) (ring.address seat)).targets ↔
      ∃ other, other ≠ seat ∧ ring.address other ∈ (ring.node shard).holders ∧
        (ring.address other).async = endpoint := by
  have told (holder : Address) (member : holder ∈ (ring.node shard).holders)
      (same : holder.sync = (ring.address seat).sync) : holder.async = (ring.address seat).async := by
    obtain ⟨other, rfl⟩ := ring.holder_seat member
    rw [ring.sync_inj same]
  rw [Dispatch.mem_targets own told]
  constructor
  · intro listed
    obtain ⟨foreign, address, holder, rfl⟩ := listed
    obtain ⟨other, rfl⟩ := ring.holder_seat holder
    exact ⟨other, fun same => foreign (same ▸ rfl), holder, rfl⟩
  · intro listed
    obtain ⟨other, different, holder, rfl⟩ := listed
    exact ⟨fun same => different (ring.async_inj same), ring.address other, holder, rfl⟩

theorem mem_mail {seat shard : ring.Seat} {message : Message} {letter : Letter}
    (own : ring.address seat ∈ (ring.node shard).holders) :
    letter ∈ ring.mail seat shard message ↔
      message.isEmpty = false ∧ letter.message = message ∧
        ∃ other, other ≠ seat ∧ ring.Holds other shard ∧ (ring.address other).async = letter.target := by
  obtain ⟨target, content⟩ := letter
  cases empty : message.isEmpty with
  | true => simp [mail, Server.letters, empty]
  | false =>
    simp only [mail, Server.letters, empty, Bool.false_eq_true, if_false, List.mem_filter, List.mem_map,
      Letter.mk.injEq, ring.takesMail_iff, true_and]
    constructor
    · intro sent
      obtain ⟨⟨endpoint, member, rfl, rfl⟩, other, registered, same⟩ := sent
      obtain ⟨holder, different, holds, inbox⟩ := (ring.mem_targets own).mp member
      have equal := ring.async_inj (same.trans inbox.symm)
      subst equal
      exact ⟨rfl, other, different, ⟨registered, holds⟩, same⟩
    · intro sent
      obtain ⟨rfl, other, different, holds, inbox⟩ := sent
      exact ⟨⟨target, (ring.mem_targets own).mpr ⟨other, different, holds.holder, inbox⟩, rfl, rfl⟩,
        other, holds.registered, inbox⟩

theorem mail_to {seat shard other : ring.Seat} {message : Message} (told : message.isEmpty = false)
    (own : ring.address seat ∈ (ring.node shard).holders) (different : other ≠ seat) (holds : ring.Holds other shard) :
    (ring.mail seat shard message).filter (·.target = (ring.address other).async) =
      [{ target := (ring.address other).async, message }] := by
  have distinct : (ring.mail seat shard message).Nodup := by
    apply List.Nodup.filter _
    simp only [Server.letters, told, Bool.false_eq_true, if_false]
    refine (Dispatch.targets_nodup _ _).map ?_
    intro first second same
    simpa using same
  have member : { target := (ring.address other).async, message } ∈ ring.mail seat shard message :=
    (ring.mem_mail own).mpr ⟨told, rfl, other, different, holds, rfl⟩
  have one : (ring.mail seat shard message).filter (·.target = (ring.address other).async) =
      (ring.mail seat shard message).filter (· = { target := (ring.address other).async, message }) := by
    refine List.filter_congr fun letter sent => ?_
    obtain ⟨target, content⟩ := letter
    have same : content = message := ((ring.mem_mail own).mp sent).2.1
    subst same
    simp
  rw [one, List.filter_eq, List.count_eq_one_of_mem distinct member]
  rfl

end Ring
end ReplicaRing
