import ReplicaRing.Store.Entry

/-! What writes and removals do to an entry. Versions once retired stay retired, and one that
is retired without being live is gone for good, whatever copies of it still arrive. -/

namespace ReplicaRing.Entry

def Live (entry : Entry) (version : Version) : Prop :=
  ∃ value ∈ entry.values, value.version = version

def Retired (entry : Entry) (version : Version) : Prop :=
  version ∈ entry.retired

instance (entry : Entry) (version : Version) : Decidable (entry.Live version) :=
  inferInstanceAs (Decidable (∃ value ∈ entry.values, value.version = version))

instance (entry : Entry) (version : Version) : Decidable (entry.Retired version) :=
  inferInstanceAs (Decidable (version ∈ entry.retired))

/-- Superseded or removed, and no longer there. -/
def Gone (entry : Entry) (version : Version) : Prop :=
  entry.Retired version ∧ ¬ entry.Live version

/-- The version has arrived: it is retired, or live in a value that never expires. -/
def Knows (entry : Entry) (version : Version) : Prop :=
  entry.Retired version ∨ ∃ value ∈ entry.values, value.version = version ∧ value.expiresAt = none

theorem Knows.live_or_retired {entry : Entry} {version : Version} (known : entry.Knows version) :
    entry.Live version ∨ entry.Retired version := by
  rcases known with retired | ⟨value, member, same, _⟩
  · exact Or.inr retired
  · exact Or.inl ⟨value, member, same⟩

theorem vacant_not_live (version : Version) : ¬ vacant.Live version := by
  intro live
  obtain ⟨value, member, _⟩ := live
  cases member

theorem vacant_not_retired (version : Version) : ¬ vacant.Retired version :=
  Std.ExtTreeSet.not_mem_empty

theorem eq_vacant {entry : Entry} (empty : entry.isVacant = true) : entry = vacant := by
  obtain ⟨values, retired⟩ := entry
  simp only [isVacant, Bool.and_eq_true, List.isEmpty_iff, Std.ExtTreeSet.isEmpty_iff] at empty
  rw [empty.1, empty.2, vacant]

theorem mem_unexpired {entry : Entry} {now : UInt64} {value : Value} :
    value ∈ entry.unexpired now ↔ value ∈ entry.values ∧ value.isExpired now = false := by
  simp [unexpired, List.mem_filter]

theorem isExpired_of_lasting {value : Value} (lasting : value.expiresAt = none) (now : UInt64) :
    value.isExpired now = false := by
  simp [Value.isExpired, lasting]

theorem mem_retire {retired : Std.ExtTreeSet Version} {parents : List Version} {version : Version} :
    version ∈ retired.insertMany parents ↔ version ∈ retired ∨ version ∈ parents := by
  rw [Std.ExtTreeSet.mem_insertMany_list, List.contains_iff_mem]

/-- The entry after a write that was let in: unexpired siblings that it does not supersede, then
its own value. -/
def granted (entry : Entry) (write : Write) (parents : List Version) (version : Version)
    (now : UInt64) : Entry where
  values := ((entry.unexpired now).filter fun value =>
    value.version ≠ version && !parents.contains value.version) ++ [stored write parents version now]
  retired := entry.retired.insertMany parents

section Granted

variable {entry : Entry} {write : Write} {parents : List Version} {version : Version} {now : UInt64}

theorem mem_granted {value : Value} : value ∈ (entry.granted write parents version now).values ↔
    value ∈ entry.unexpired now ∧ value.version ≠ version ∧ value.version ∉ parents ∨
      value = stored write parents version now := by
  simp [granted]

theorem granted_makes_gone (foreign : version ∉ parents) {parent : Version} (named : parent ∈ parents) :
    (entry.granted write parents version now).Gone parent := by
  refine ⟨mem_retire.mpr (Or.inr named), ?_⟩
  rintro ⟨value, member, rfl⟩
  rcases mem_granted.mp member with ⟨_, _, unnamed⟩ | rfl
  · exact unnamed named
  · exact foreign named

end Granted

section Write

variable (entry : Entry) (write : Write) (parents : List Version) (version : Version) (now : UInt64)

/-- Everything a write can do: nothing because its version is retired, nothing but to clear out
expired values because it is refused, or to be let in. -/
theorem write_cases :
    (entry.Retired version ∧
      entry.write write parents version now = ({ version := some version, conflict := false }, entry)) ∨
    (¬ entry.Retired version ∧ conflicts (entry.unexpired now) parents version = true ∧
      write.optimistic = true ∧
      entry.write write parents version now =
        ({ version := none, conflict := true }, { entry with values := entry.unexpired now })) ∨
    (¬ entry.Retired version ∧
      (conflicts (entry.unexpired now) parents version = true → write.optimistic = false) ∧
      entry.write write parents version now =
        ({ version := some version, conflict := conflicts (entry.unexpired now) parents version },
          entry.granted write parents version now)) := by
  by_cases retired : entry.Retired version
  · have found : entry.retired.contains version = true := Std.ExtTreeSet.contains_iff_mem.mpr retired
    exact Or.inl ⟨retired, by simp only [Entry.write, found, if_true]⟩
  · have missing : ¬ entry.retired.contains version = true :=
      fun found => retired (Std.ExtTreeSet.contains_iff_mem.mp found)
    by_cases refused : (conflicts (entry.unexpired now) parents version && write.optimistic) = true
    · obtain ⟨conflict, optimistic⟩ := Bool.and_eq_true_iff.mp refused
      refine Or.inr (Or.inl ⟨retired, conflict, optimistic, ?_⟩)
      simp only [Entry.write, missing, refused, if_true]
      rfl
    · refine Or.inr (Or.inr ⟨retired, ?_, ?_⟩)
      · intro conflict
        simpa [conflict] using refused
      · simp only [Entry.write, missing, refused, granted]
        rfl

variable {entry write parents version now}

theorem write_version_eq {granted : Version}
    (accepted : (entry.write write parents version now).1.version = some granted) : granted = version := by
  rcases write_cases entry write parents version now with ⟨_, same⟩ | ⟨_, _, _, same⟩ | ⟨_, _, same⟩
  all_goals
    rw [same] at accepted
    simp_all

theorem write_granted (firm : write.optimistic = false) :
    (entry.write write parents version now).1.version = some version := by
  rcases write_cases entry write parents version now with ⟨_, same⟩ | ⟨_, _, optimistic, _⟩ | ⟨_, _, same⟩
  · rw [same]
  · rw [firm] at optimistic
    cases optimistic
  · rw [same]

theorem write_of_retired (retired : entry.Retired version) :
    entry.write write parents version now = ({ version := some version, conflict := false }, entry) := by
  rcases write_cases entry write parents version now with ⟨_, same⟩ | ⟨fresh, _⟩ | ⟨fresh, _⟩
  · exact same
  · exact absurd retired fresh
  · exact absurd retired fresh

theorem write_of_refused (fresh : ¬ entry.Retired version)
    (conflict : conflicts (entry.unexpired now) parents version = true) (optimistic : write.optimistic = true) :
    entry.write write parents version now =
      ({ version := none, conflict := true }, { entry with values := entry.unexpired now }) := by
  rcases write_cases entry write parents version now with ⟨retired, _⟩ | ⟨_, _, _, same⟩ | ⟨_, firm, _⟩
  · exact absurd retired fresh
  · exact same
  · rw [firm conflict] at optimistic
    cases optimistic

theorem write_of_granted (fresh : ¬ entry.Retired version)
    (firm : conflicts (entry.unexpired now) parents version = true → write.optimistic = false) :
    entry.write write parents version now =
      ({ version := some version, conflict := conflicts (entry.unexpired now) parents version },
        entry.granted write parents version now) := by
  rcases write_cases entry write parents version now with ⟨retired, _⟩ | ⟨_, conflict, optimistic, _⟩ | ⟨_, _, same⟩
  · exact absurd retired fresh
  · rw [firm conflict] at optimistic
    cases optimistic
  · exact same

/-- A write that comes when its version is retired changes nothing. -/
theorem write_late (retired : entry.Retired version) : (entry.write write parents version now).2 = entry := by
  rw [write_of_retired retired]

theorem write_keeps_retired {other : Version} (retired : entry.Retired other) :
    (entry.write write parents version now).2.Retired other := by
  rcases write_cases entry write parents version now with ⟨_, same⟩ | ⟨_, _, _, same⟩ | ⟨_, _, same⟩
  all_goals rw [same]
  · exact retired
  · exact retired
  · exact mem_retire.mpr (Or.inl retired)

theorem write_retires_only {other : Version}
    (retired : (entry.write write parents version now).2.Retired other) :
    entry.Retired other ∨ other ∈ parents := by
  rcases write_cases entry write parents version now with ⟨_, same⟩ | ⟨_, _, _, same⟩ | ⟨_, _, same⟩
  all_goals rw [same] at retired
  · exact Or.inl retired
  · exact Or.inl retired
  · exact mem_retire.mp retired

theorem mem_write {value : Value}
    (member : value ∈ (entry.write write parents version now).2.values) :
    value ∈ entry.values ∨ ¬ entry.Retired version ∧ value = stored write parents version now := by
  rcases write_cases entry write parents version now with ⟨_, same⟩ | ⟨_, _, _, same⟩ | ⟨fresh, _, same⟩
  all_goals rw [same] at member
  · exact Or.inl member
  · exact Or.inl (mem_unexpired.mp member).1
  · rcases mem_granted.mp member with ⟨present, _⟩ | own
    · exact Or.inl (mem_unexpired.mp present).1
    · exact Or.inr ⟨fresh, own⟩

theorem write_keeps_gone {other : Version} (gone : entry.Gone other) :
    (entry.write write parents version now).2.Gone other := by
  refine ⟨write_keeps_retired gone.1, ?_⟩
  intro live
  obtain ⟨value, member, same⟩ := live
  rcases mem_write member with old | ⟨fresh, own⟩
  · exact gone.2 ⟨value, old, same⟩
  · have equal : version = other := by
      rw [← same, own]
      rfl
    exact fresh (equal ▸ gone.1)

/-- What has arrived stays, as long as nothing that expires is stored under its version. -/
theorem write_keeps_known {other : Version} (known : entry.Knows other)
    (lasting : version = other → write.expiresAt = none) :
    (entry.write write parents version now).2.Knows other := by
  rcases known with retired | ⟨value, member, same, forever⟩
  · exact Or.inl (write_keeps_retired retired)
  · have present : value ∈ entry.unexpired now :=
      mem_unexpired.mpr ⟨member, isExpired_of_lasting forever now⟩
    rcases write_cases entry write parents version now with ⟨_, shape⟩ | ⟨_, _, _, shape⟩ | ⟨_, _, shape⟩
    all_goals rw [shape]
    · exact Or.inr ⟨value, member, same, forever⟩
    · exact Or.inr ⟨value, present, same, forever⟩
    · by_cases own : version = other
      · exact Or.inr ⟨stored write parents version now, mem_granted.mpr (Or.inr rfl), own, lasting own⟩
      · by_cases named : other ∈ parents
        · exact Or.inl (mem_retire.mpr (Or.inr named))
        · subst same
          exact Or.inr ⟨value, mem_granted.mpr (Or.inl ⟨present, Ne.symm own, named⟩), rfl, forever⟩

theorem write_known_of_accepted (accepted : (entry.write write parents version now).1.version ≠ none)
    (lasting : write.expiresAt = none) : (entry.write write parents version now).2.Knows version := by
  rcases write_cases entry write parents version now with ⟨retired, same⟩ | ⟨_, _, _, same⟩ | ⟨_, _, same⟩
  · rw [same]
    exact Or.inl retired
  · rw [same] at accepted
    exact absurd rfl accepted
  · rw [same]
    exact Or.inr ⟨stored write parents version now, mem_granted.mpr (Or.inr rfl), rfl, lasting⟩

theorem write_makes_known (firm : write.optimistic = false) (lasting : write.expiresAt = none) :
    (entry.write write parents version now).2.Knows version := by
  apply write_known_of_accepted _ lasting
  rw [write_granted firm]
  exact Option.some_ne_none version

/-- A write that is neither late nor refused retires its parents. -/
theorem write_retires_parents (fresh : ¬ entry.Retired version) (firm : write.optimistic = false)
    {parent : Version} (named : parent ∈ parents) :
    (entry.write write parents version now).2.Retired parent := by
  rw [write_of_granted fresh fun _ => firm]
  exact mem_retire.mpr (Or.inr named)

theorem write_keeps_apart (apart : ∀ other, entry.Live other → ¬ entry.Retired other)
    (foreign : version ∉ parents) (other : Version)
    (live : (entry.write write parents version now).2.Live other) :
    ¬ (entry.write write parents version now).2.Retired other := by
  obtain ⟨value, member, same⟩ := live
  rcases write_cases entry write parents version now with ⟨_, shape⟩ | ⟨_, _, _, shape⟩ | ⟨fresh, _, shape⟩
  all_goals rw [shape] at member ⊢
  · exact apart other ⟨value, member, same⟩
  · exact apart other ⟨value, (mem_unexpired.mp member).1, same⟩
  · intro retired
    rcases mem_granted.mp member with ⟨present, _, unnamed⟩ | own
    · rcases mem_retire.mp retired with old | named
      · exact apart other ⟨value, (mem_unexpired.mp present).1, same⟩ old
      · exact unnamed (same ▸ named)
    · have equal : version = other := by
        rw [← same, own]
        rfl
      subst equal
      rcases mem_retire.mp retired with old | named
      · exact fresh old
      · exact foreign named

end Write

section Remove

variable {entry : Entry} {parents : List Version} {version : Version}

theorem remove_retired : (entry.remove parents).2.Retired version ↔ entry.Retired version ∨ version ∈ parents :=
  mem_retire

theorem mem_remove {value : Value} :
    value ∈ (entry.remove parents).2.values ↔ value ∈ entry.values ∧ value.version ∉ parents := by
  simp [Entry.remove, List.mem_filter]

theorem remove_live : (entry.remove parents).2.Live version ↔ entry.Live version ∧ version ∉ parents := by
  constructor
  · intro live
    obtain ⟨value, member, rfl⟩ := live
    obtain ⟨present, unnamed⟩ := mem_remove.mp member
    exact ⟨⟨value, present, rfl⟩, unnamed⟩
  · intro live
    obtain ⟨⟨value, present, rfl⟩, unnamed⟩ := live
    exact ⟨value, mem_remove.mpr ⟨present, unnamed⟩, rfl⟩

theorem remove_makes_gone (named : version ∈ parents) : (entry.remove parents).2.Gone version :=
  ⟨remove_retired.mpr (Or.inr named), fun live => (remove_live.mp live).2 named⟩

theorem remove_keeps_gone (gone : entry.Gone version) : (entry.remove parents).2.Gone version :=
  ⟨remove_retired.mpr (Or.inl gone.1), fun live => gone.2 (remove_live.mp live).1⟩

theorem remove_keeps_known (known : entry.Knows version) : (entry.remove parents).2.Knows version := by
  rcases known with retired | ⟨value, member, same, forever⟩
  · exact Or.inl (remove_retired.mpr (Or.inl retired))
  · by_cases named : version ∈ parents
    · exact Or.inl (remove_retired.mpr (Or.inr named))
    · exact Or.inr ⟨value, mem_remove.mpr ⟨member, same ▸ named⟩, same, forever⟩

theorem remove_keeps_apart (apart : ∀ other, entry.Live other → ¬ entry.Retired other) (other : Version)
    (live : (entry.remove parents).2.Live other) : ¬ (entry.remove parents).2.Retired other := by
  obtain ⟨present, unnamed⟩ := remove_live.mp live
  intro retired
  rcases remove_retired.mp retired with old | named
  · exact apart other present old
  · exact unnamed named

end Remove

theorem mem_read {entry : Entry} {version : Option Version} {now : UInt64} {value : Value}
    (member : value ∈ entry.read version now) : value ∈ entry.values :=
  (mem_unexpired.mp (List.mem_filter.mp member).1).1

end ReplicaRing.Entry
