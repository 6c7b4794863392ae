import ReplicaRing.Proofs.Minting

/-! Entries that look alike at some moment: the same versions are retired, and the same values are
unexpired, in the same order, though stored at different times. A holder that takes what another
one tells of a batch, no earlier than that one took the batch, looks like it afterwards if it did
so before. -/

namespace ReplicaRing

/-- A value without the time at which its holder stored it. -/
def Value.undated (value : Value) : Value :=
  { value with timestamp := 0 }

namespace Entry

/-- What is unexpired, whenever it was stored. -/
def visible (entry : Entry) (now : UInt64) : List Value :=
  (entry.unexpired now).map Value.undated

structure Alike (now : UInt64) (left right : Entry) : Prop where
  visible : left.visible now = right.visible now
  retired : left.retired = right.retired

theorem isExpired_later {value : Value} {now later : UInt64} (order : now ≤ later)
    (expired : value.isExpired now = true) : value.isExpired later = true := by
  unfold Value.isExpired at *
  cases expiry : value.expiresAt with
  | none => simp [expiry] at expired
  | some moment =>
    simp only [expiry, Option.any_some, decide_eq_true_eq] at expired ⊢
    exact UInt64.le_trans expired order

theorem filter_unexpired {now later : UInt64} (order : now ≤ later) (entry : Entry) :
    (entry.unexpired now).filter (fun value => !value.isExpired later) = entry.unexpired later := by
  rw [unexpired, unexpired, List.filter_filter]
  refine List.filter_congr fun value _ => ?_
  cases expired : value.isExpired now with
  | false => simp
  | true => simp [isExpired_later order expired]

theorem visible_later {now later : UInt64} (order : now ≤ later) (entry : Entry) :
    entry.visible later = (entry.visible now).filter fun value => !value.isExpired later := by
  rw [visible, visible, List.filter_map, ← filter_unexpired order]
  rfl

theorem read_visible (entry : Entry) (version : Option Version) (now : UInt64) :
    (entry.read version now).map Value.undated =
      (entry.visible now).filter fun value => version.all (· = value.version) := by
  rw [Entry.read, Entry.visible, List.filter_map]
  rfl

namespace Alike

variable {now : UInt64} {first second third : Entry}

theorem refl (entry : Entry) : entry.Alike now entry :=
  ⟨rfl, rfl⟩

theorem symm (alike : first.Alike now second) : second.Alike now first :=
  ⟨alike.visible.symm, alike.retired.symm⟩

theorem trans (left : first.Alike now second) (right : second.Alike now third) : first.Alike now third :=
  ⟨left.visible.trans right.visible, left.retired.trans right.retired⟩

theorem later {later : UInt64} (alike : first.Alike now second) (order : now ≤ later) : first.Alike later second where
  visible := by rw [visible_later order, visible_later order, alike.visible]
  retired := alike.retired

theorem read (alike : first.Alike now second) (version : Option Version) :
    (first.read version now).map Value.undated = (second.read version now).map Value.undated := by
  rw [read_visible, read_visible, alike.visible]

end Alike

theorem conflicts_visible (entry : Entry) (parents : List Version) (version : Version) (now : UInt64) :
    conflicts (entry.unexpired now) parents version = conflicts (entry.visible now) parents version := by
  unfold conflicts visible
  rw [List.any_map, List.any_map]
  rfl

theorem conflicts_earlier {entry : Entry} {parents : List Version} {version : Version} {earlier now : UInt64}
    (order : earlier ≤ now) (absent : ¬ entry.Live version)
    (conflict : conflicts (entry.unexpired now) parents version = true) :
    conflicts (entry.unexpired earlier) parents version = true := by
  have unseen : (entry.unexpired earlier).any (·.version = version) = false := by
    rw [List.any_eq_false]
    intro value present same
    exact absent ⟨value, (mem_unexpired.mp present).1, by simpa using same⟩
  simp only [conflicts, unseen, Bool.not_false, Bool.true_and, Bool.and_eq_true, List.any_eq_true] at conflict ⊢
  obtain ⟨value, present, foreign⟩ := conflict.2
  rw [← filter_unexpired order] at present
  exact ⟨value, (List.mem_filter.mp present).1, foreign⟩

theorem visible_granted {entry : Entry} {write : Write} {parents : List Version} {version : Version} {earlier now : UInt64}
    (order : earlier ≤ now) : (entry.granted write parents version earlier).visible now =
      ((entry.visible now).filter fun value => value.version ≠ version && !parents.contains value.version) ++
        ([(stored write parents version 0)].filter fun value => !value.isExpired now) := by
  rw [visible, unexpired, granted, List.filter_append, List.map_append, List.filter_filter]
  congr 1
  · rw [visible, List.filter_map, ← filter_unexpired order, List.filter_filter]
    congr 1
    refine List.filter_congr fun value _ => ?_
    exact Bool.and_comm _ _
  · have single : [stored write parents version 0] = [stored write parents version earlier].map Value.undated := rfl
    rw [single, List.filter_map]
    rfl

theorem visible_granted_own {entry : Entry} {write : Write} {parents : List Version} {version : Version}
    {earlier now : UInt64} (order : earlier ≤ now) :
    ((entry.granted write parents version earlier).visible now).filter (·.version = version) =
      [stored write parents version 0].filter fun value => !value.isExpired now := by
  have others : ((entry.visible now).filter fun value =>
      value.version ≠ version && !parents.contains value.version).filter (·.version = version) = [] := by
    rw [List.filter_eq_nil_iff]
    intro value member
    have foreign := (List.mem_filter.mp member).2
    simp_all
  have itself : ∀ value ∈ [stored write parents version 0].filter fun value => !value.isExpired now,
      decide (value.version = version) = true := by
    intro value member
    rw [List.mem_singleton.mp (List.mem_filter.mp member).1]
    exact decide_eq_true rfl
  rw [visible_granted order, List.filter_append, others, List.nil_append, List.filter_eq_self.mpr itself]

theorem visible_granted_other {entry : Entry} {write : Write} {parents : List Version} {version other : Version}
    {earlier now : UInt64} (order : earlier ≤ now) (foreign : other ≠ version) (unnamed : other ∉ parents) :
    ((entry.granted write parents version earlier).visible now).filter (·.version = other) =
      (entry.visible now).filter (·.version = other) := by
  have untouched : ((entry.visible now).filter fun value =>
      value.version ≠ version && !parents.contains value.version).filter (·.version = other) =
        (entry.visible now).filter (·.version = other) := by
    rw [List.filter_filter]
    refine List.filter_congr fun value _ => ?_
    by_cases own : value.version = other
    · simp [own, foreign, unnamed]
    · simp [own]
  have new : ([stored write parents version 0].filter fun value => !value.isExpired now).filter (·.version = other) =
      [] := by
    rw [List.filter_eq_nil_iff]
    intro value member
    rw [List.mem_singleton.mp (List.mem_filter.mp member).1]
    exact fun same => foreign (of_decide_eq_true same).symm
  rw [visible_granted order, List.filter_append, untouched, new, List.append_nil]

theorem visible_remove (entry : Entry) (parents : List Version) (now : UInt64) :
    (entry.remove parents).2.visible now = (entry.visible now).filter fun value => !parents.contains value.version := by
  rw [visible, unexpired, remove, visible, List.filter_map, unexpired, List.filter_filter]
  simp only [List.filter_filter]
  congr 1
  refine List.filter_congr fun value _ => ?_
  exact Bool.and_comm _ _

theorem visible_purged {earlier now : UInt64} (order : earlier ≤ now) (entry : Entry) :
    ({ entry with values := entry.unexpired earlier } : Entry).visible now = entry.visible now := by
  rw [visible, visible, ← filter_unexpired order entry]
  rfl

/-- A write at one holder and its copy at another, no earlier, leave them alike. A write that was refused
is not sent on, and has changed nothing that can still be seen. -/
theorem Alike.write {primary replica : Entry} (write : Write) (parents : List Version) {version : Version}
    {earlier now : UInt64} (alike : primary.Alike now replica) (order : earlier ≤ now) (absent : ¬ primary.Live version) :
    (primary.write write parents version earlier).2.Alike now
      (if (primary.write write parents version earlier).1.version.isSome then
        (replica.write { write with assigned := some version } parents version now).2
      else replica) := by
  rcases write_cases primary write parents version earlier with
    ⟨retired, same⟩ | ⟨_, _, _, same⟩ | ⟨fresh, firm, same⟩
  · have also : replica.Retired version := by
      rw [Retired, ← alike.retired]
      exact retired
    rw [same, write_of_retired also]
    exact alike
  · simp only [same, Option.isSome_none, Bool.false_eq_true, if_false]
    exact ⟨(visible_purged order primary).trans alike.visible, alike.retired⟩
  · have missing : ¬ replica.Retired version := by
      rw [Retired, ← alike.retired]
      exact fresh
    have agreed : conflicts (replica.unexpired now) parents version = true → write.optimistic = false := by
      rw [conflicts_visible, ← alike.visible, ← conflicts_visible]
      exact fun conflict => firm (conflicts_earlier order absent conflict)
    have taken : replica.write { write with assigned := some version } parents version now =
        (_, replica.granted { write with assigned := some version } parents version now) :=
      write_of_granted missing agreed
    rw [same, taken]
    refine ⟨?_, ?_⟩
    · simp only [Option.isSome_some, if_true]
      rw [visible_granted order, visible_granted (UInt64.le_refl now), alike.visible]
      rfl
    · simp only [Option.isSome_some, if_true, granted, alike.retired]

theorem Alike.remove {primary replica : Entry} {now : UInt64} (alike : primary.Alike now replica) (parents : List Version) :
    (primary.remove parents).2.Alike now (replica.remove parents).2 where
  visible := by rw [visible_remove, visible_remove, alike.visible]
  retired := by rw [Entry.remove, Entry.remove, alike.retired]

end Entry

namespace Holdings

variable {key : String} {earlier now : UInt64}

private theorem enter_alike {write : Write} {primary replica : Holdings} (order : earlier ≤ now)
    (absent : ¬ (primary.entry key).Live (primary.stamp write)) (alike : (primary.entry key).Alike now (replica.entry key)) :
    ((primary.enter earlier write).entry key).Alike now
      ((if (primary.result earlier write).version.isSome then
        replica.enter now { write with assigned := some (primary.stamp write) } else replica).entry key) := by
  have stamp : replica.stamp { write with assigned := some (primary.stamp write) } = primary.stamp write := by
    simp [Holdings.stamp]
  rw [apply_ite (fun held : Holdings => held.entry key), enter_entry, enter_entry, stamp]
  by_cases own : write.key = key
  · subst own
    rw [if_pos rfl, if_pos rfl]
    exact alike.write write (write.parents.getD []) order absent
  · rw [if_neg own, if_neg own, ite_self]
    exact alike

private theorem enter_absent {first : Write} {writes : List Write} {held : Holdings}
    (absent : ∀ write version, (write, version) ∈ held.stamped now (first :: writes) → ¬ (held.entry key).Live version)
    (distinct : ((held.stamped now (first :: writes)).map (·.2)).Nodup) :
    ∀ write version, (write, version) ∈ (held.enter now first).stamped now writes →
      ¬ ((held.enter now first).entry key).Live version := by
  intro write version member live
  obtain ⟨value, inside, same⟩ := live
  have old := absent write version (List.mem_cons_of_mem _ member)
  rw [enter_entry] at inside
  split at inside
  · rcases Entry.mem_write inside with present | ⟨_, own⟩
    · exact old ⟨value, present, same⟩
    · have equal : held.stamp first = version := by
        rw [← same, own]
        rfl
      simp only [stamped, List.map_cons, List.nodup_cons] at distinct
      exact distinct.1 (List.mem_map.mpr ⟨(write, version), member, equal.symm⟩)
  · exact old ⟨value, inside, same⟩

private theorem enterAll_alike {writes : List Write} (order : earlier ≤ now) {primary replica : Holdings}
    (absent : ∀ write version, (write, version) ∈ primary.stamped earlier writes → ¬ (primary.entry key).Live version)
    (distinct : ((primary.stamped earlier writes).map (·.2)).Nodup)
    (alike : (primary.entry key).Alike now (replica.entry key)) :
    ((primary.enterAll earlier writes).entry key).Alike now
      ((replica.enterAll now (Server.copies writes (primary.results earlier writes))).entry key) := by
  induction writes generalizing primary replica with
  | nil => exact alike
  | cons write writes ih =>
    have later := enter_absent absent distinct
    have step := enter_alike order (absent write _ List.mem_cons_self) alike
    simp only [stamped, List.map_cons, List.nodup_cons] at distinct
    rw [enterAll_cons, results, Server.copies]
    cases accepted : (primary.result earlier write).version with
    | none =>
      rw [accepted] at step
      exact ih later distinct.2 step
    | some version =>
      obtain rfl : version = primary.stamp write := Entry.write_version_eq accepted
      rw [accepted] at step
      exact ih later distinct.2 step

private theorem strikeAll_alike {removals : List Removal} {primary replica : Holdings}
    (alike : (primary.entry key).Alike now (replica.entry key)) :
    ((primary.strikeAll removals).entry key).Alike now ((replica.strikeAll removals).entry key) := by
  induction removals generalizing primary replica with
  | nil => exact alike
  | cons removal removals ih =>
    apply ih
    rw [strike_entry, strike_entry]
    split
    · exact alike.remove _
    · exact alike

/-- A batch at one holder and what it tells of it at another, no earlier, leave the two alike. -/
theorem take_alike {message : Message} {primary replica : Holdings} (order : earlier ≤ now)
    (absent : ∀ write version, (write, version) ∈ primary.stamped earlier message.written →
      ¬ (primary.entry key).Live version)
    (distinct : ((primary.stamped earlier message.written).map (·.2)).Nodup)
    (alike : (primary.entry key).Alike now (replica.entry key)) :
    ((primary.take earlier message).entry key).Alike now
      ((replica.take now (primary.news earlier message)).entry key) := by
  cases message with
  | writes _ => exact enterAll_alike order absent distinct alike
  | removals _ => exact strikeAll_alike alike

/-- A batch of which there is nothing to tell has changed nothing that can still be seen. -/
theorem take_untold {message : Message} {held : Holdings} (order : earlier ≤ now)
    (absent : ∀ write version, (write, version) ∈ held.stamped earlier message.written → ¬ (held.entry key).Live version)
    (distinct : ((held.stamped earlier message.written).map (·.2)).Nodup)
    (untold : (held.news earlier message).isEmpty = true) :
    ((held.take earlier message).entry key).Alike now (held.entry key) := by
  have alike := take_alike order absent distinct (Entry.Alike.refl (held.entry key))
  have same : held.take now (held.news earlier message) = held := by
    cases message with
    | writes writes =>
      have none : Server.copies writes (held.results earlier writes) = [] := by
        simpa [news, Message.isEmpty, Message.length] using untold
      rw [news, none]
      rfl
    | removals removals =>
      have none : removals = [] := by
        simpa [news, Message.isEmpty, Message.length] using untold
      rw [news, none]
      rfl
  rw [same] at alike
  exact alike

end Holdings
end ReplicaRing
