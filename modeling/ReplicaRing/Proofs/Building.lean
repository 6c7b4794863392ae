import Mathlib.Data.List.Forall2
import Mathlib.Data.List.Induction
import Mathlib.Data.List.Nodup
import ReplicaRing.Topology.Build

/-! Which configurations describe a ring, and what is said of the others. A name is judged by the names in front of it,
a reference by all names, and references only once every name is found to be sound. So the first thing wrong is told,
and in which order the machines are listed makes no difference to what a reference leads to. -/

namespace ReplicaRing

namespace Descriptor

def references (descriptor : Descriptor) : List String :=
  descriptor.secondary.toList ++ descriptor.tertiary.toList

def Resolves (all : List Descriptor) (descriptor : Descriptor) : Prop :=
  ∀ reference ∈ descriptor.references, reference ∈ all.map (·.name)

/-- No name is blank, and no two machines have the same one. -/
structure WellNamed (descriptors : List Descriptor) : Prop where
  visible : ∀ descriptor ∈ descriptors, Text.isBlank descriptor.name = false
  distinct : (descriptors.map (·.name)).Nodup

/-- What is wrong with a name that comes behind some others. -/
inductive Misnamed (earlier : List Descriptor) (descriptor : Descriptor) : Topology.Defect → Prop where
  | blank (blank : Text.isBlank descriptor.name = true) : Misnamed earlier descriptor (.blankName earlier.length)
  | repeated (visible : Text.isBlank descriptor.name = false) (known : descriptor.name ∈ earlier.map (·.name)) :
      Misnamed earlier descriptor (.repeatedName descriptor.name)

/-- What is wrong with the references of one machine. The second copy comes before the third. -/
inductive Dangling (all : List Descriptor) (descriptor : Descriptor) : Topology.Defect → Prop where
  | secondary {reference : String} (refers : descriptor.secondary = some reference)
      (unknown : reference ∉ all.map (·.name)) :
      Dangling all descriptor (.unknownReplica descriptor.name .secondary reference)
  | tertiary {reference : String} (found : ∀ other, descriptor.secondary = some other → other ∈ all.map (·.name))
      (refers : descriptor.tertiary = some reference) (unknown : reference ∉ all.map (·.name)) :
      Dangling all descriptor (.unknownReplica descriptor.name .tertiary reference)

/-- The address that a reference leads to: that of the only machine of this name, and none without a reference. -/
inductive Leads (all : List Descriptor) : Option String → Option Address → Prop where
  | nowhere : Leads all none none
  | named {descriptor : Descriptor} (member : descriptor ∈ all)
      (only : ∀ other ∈ all, other.name = descriptor.name → other = descriptor) :
      Leads all (some descriptor.name) (some descriptor.address)

/-- The shard that a machine owns. -/
structure Describes (all : List Descriptor) (descriptor : Descriptor) (node : Node) : Prop where
  name : node.name = descriptor.name
  primary : node.primary = descriptor.address
  secondary : Leads all descriptor.secondary node.secondary
  tertiary : Leads all descriptor.tertiary node.tertiary

end Descriptor

namespace Config

structure WellFormed (config : Config) : Prop where
  populated : config.nodes ≠ []
  named : Descriptor.WellNamed config.nodes
  resolved : ∀ descriptor ∈ config.nodes, descriptor.Resolves config.nodes

/-- The first thing wrong with a configuration. -/
inductive Flawed (config : Config) : Topology.Defect → Prop where
  | empty (nobody : config.nodes = []) : Flawed config .noNodes
  | name {earlier later : List Descriptor} {descriptor : Descriptor} {defect : Topology.Defect}
      (listed : config.nodes = earlier ++ descriptor :: later) (sound : Descriptor.WellNamed earlier)
      (wrong : descriptor.Misnamed earlier defect) : Flawed config defect
  | reference {earlier later : List Descriptor} {descriptor : Descriptor} {defect : Topology.Defect}
      (named : Descriptor.WellNamed config.nodes) (listed : config.nodes = earlier ++ descriptor :: later)
      (sound : ∀ other ∈ earlier, other.Resolves config.nodes)
      (wrong : descriptor.Dangling config.nodes defect) : Flawed config defect

end Config

namespace Descriptor

variable {all earlier later : List Descriptor} {descriptor : Descriptor} {defect : Topology.Defect}

theorem wellNamed_concat : WellNamed (earlier ++ [descriptor]) ↔
    WellNamed earlier ∧ Text.isBlank descriptor.name = false ∧ descriptor.name ∉ earlier.map (·.name) := by
  constructor
  · rintro ⟨visible, distinct⟩
    rw [List.map_append, List.nodup_append] at distinct
    refine ⟨⟨fun other member => visible other (List.mem_append_left _ member), distinct.1⟩, ?_, ?_⟩
    · exact visible descriptor (List.mem_append_right _ List.mem_cons_self)
    · exact fun known => distinct.2.2 _ known _ List.mem_cons_self rfl
  · rintro ⟨⟨visible, distinct⟩, own, fresh⟩
    refine ⟨?_, ?_⟩
    · intro other member
      rcases List.mem_append.mp member with old | new
      · exact visible other old
      · exact List.mem_singleton.mp new ▸ own
    · rw [List.map_append, List.map_singleton, List.nodup_append]
      refine ⟨distinct, List.nodup_singleton _, ?_⟩
      rintro name known _ new rfl
      exact fresh (List.mem_singleton.mp new ▸ known)

/-- If some names are not in order, one of them is the first that is not. -/
theorem wellNamed_or_misnamed (all : List Descriptor) : WellNamed all ∨
    ∃ earlier descriptor later defect, all = earlier ++ descriptor :: later ∧ WellNamed earlier ∧
      Misnamed earlier descriptor defect := by
  induction all using List.reverseRecOn with
  | nil => exact Or.inl ⟨List.forall_mem_nil _, List.nodup_nil⟩
  | append_singleton front last ih =>
    rcases ih with sound | ⟨earlier, descriptor, later, defect, rfl, rest⟩
    · cases blank : Text.isBlank last.name with
      | true => exact Or.inr ⟨front, last, [], _, rfl, sound, .blank blank⟩
      | false =>
        by_cases known : last.name ∈ front.map (·.name)
        · exact Or.inr ⟨front, last, [], _, rfl, sound, .repeated blank known⟩
        · exact Or.inl (wellNamed_concat.mpr ⟨sound, blank, known⟩)
    · exact Or.inr ⟨earlier, descriptor, later ++ [last], defect, by simp, rest⟩

theorem resolves_or_dangling (all : List Descriptor) (descriptor : Descriptor) :
    descriptor.Resolves all ∨ ∃ defect, descriptor.Dangling all defect := by
  by_cases second : ∀ other, descriptor.secondary = some other → other ∈ all.map (·.name)
  · by_cases third : ∀ other, descriptor.tertiary = some other → other ∈ all.map (·.name)
    · left
      intro reference refers
      rcases List.mem_append.mp refers with own | own
      · exact second reference (Option.mem_toList.mp own)
      · exact third reference (Option.mem_toList.mp own)
    · push Not at third
      obtain ⟨reference, refers, unknown⟩ := third
      exact Or.inr ⟨_, .tertiary second refers unknown⟩
  · push Not at second
    obtain ⟨reference, refers, unknown⟩ := second
    exact Or.inr ⟨_, .secondary refers unknown⟩

theorem resolved_or_dangling (all descriptors : List Descriptor) :
    (∀ descriptor ∈ descriptors, descriptor.Resolves all) ∨
      ∃ earlier descriptor later defect, descriptors = earlier ++ descriptor :: later ∧
        (∀ other ∈ earlier, other.Resolves all) ∧ descriptor.Dangling all defect := by
  induction descriptors with
  | nil => exact Or.inl (List.forall_mem_nil _)
  | cons first rest ih =>
    rcases first.resolves_or_dangling all with sound | ⟨defect, wrong⟩
    · rcases ih with others | ⟨earlier, descriptor, later, defect, rfl, before, wrong⟩
      · exact Or.inl (List.forall_mem_cons.mpr ⟨sound, others⟩)
      · exact Or.inr ⟨first :: earlier, descriptor, later, defect, rfl, List.forall_mem_cons.mpr ⟨sound, before⟩, wrong⟩
    · exact Or.inr ⟨[], first, rest, defect, rfl, List.forall_mem_nil _, wrong⟩

theorem Leads.known {reference : Option String} {place : Option Address} (leads : Leads all reference place)
    {address : Address} (found : place = some address) : ∃ descriptor ∈ all, descriptor.address = address := by
  cases leads with
  | nowhere => cases found
  | named member _ => exact ⟨_, member, Option.some.inj found⟩

end Descriptor

theorem Config.wellFormed_or_flawed (config : Config) : config.WellFormed ∨ ∃ defect, config.Flawed defect := by
  by_cases nobody : config.nodes = []
  · exact Or.inr ⟨_, .empty nobody⟩
  · rcases Descriptor.wellNamed_or_misnamed config.nodes with named | ⟨_, _, _, defect, listed, sound, wrong⟩
    · rcases Descriptor.resolved_or_dangling config.nodes config.nodes with
        resolved | ⟨_, _, _, defect, listed, sound, wrong⟩
      · exact Or.inl ⟨nobody, named, resolved⟩
      · exact Or.inr ⟨defect, .reference named listed sound wrong⟩
    · exact Or.inr ⟨defect, .name listed sound wrong⟩

namespace Topology

variable {all earlier later : List Descriptor} {descriptor : Descriptor} {defect : Defect}

private def seen (earlier : List Descriptor) : List String :=
  earlier.reverse.map (·.name)

private theorem seen_concat (earlier : List Descriptor) (descriptor : Descriptor) :
    seen (earlier ++ [descriptor]) = descriptor.name :: seen earlier := by
  simp [seen]

private theorem mem_seen {name : String} : name ∈ seen earlier ↔ name ∈ earlier.map (·.name) := by
  simp [seen]

private theorem checkNames_passed (sound : Descriptor.WellNamed earlier) (later : List Descriptor) :
    checkNames [] 0 (earlier ++ later) = checkNames (seen earlier) earlier.length later := by
  induction earlier using List.reverseRecOn generalizing later with
  | nil => rfl
  | append_singleton front last ih =>
    obtain ⟨before, visible, fresh⟩ := Descriptor.wellNamed_concat.mp sound
    rw [List.append_assoc, List.singleton_append, ih before, checkNames, if_neg (by simp [visible]),
      if_neg (mt mem_seen.mp fresh), seen_concat, List.length_append, List.length_singleton]

theorem checkNames_ok (sound : Descriptor.WellNamed all) : checkNames [] 0 all = .ok () := by
  rw [← List.append_nil all, checkNames_passed sound, checkNames]

theorem checkNames_error (sound : Descriptor.WellNamed earlier) (wrong : descriptor.Misnamed earlier defect)
    (later : List Descriptor) : checkNames [] 0 (earlier ++ descriptor :: later) = .error defect := by
  rw [checkNames_passed sound, checkNames]
  cases wrong with
  | blank blank => rw [if_pos blank]
  | repeated visible known => rw [if_neg (by simp [visible]), if_pos (mem_seen.mpr known)]

theorem resolve_ok (distinct : (all.map (·.name)).Nodup) (owner : String) (role : Role) {reference : Option String}
    (known : ∀ name ∈ reference.toList, name ∈ all.map (·.name)) :
    ∃ address, resolve all owner role reference = .ok address ∧ Descriptor.Leads all reference address := by
  cases reference with
  | none => exact ⟨none, rfl, .nowhere⟩
  | some name =>
    obtain ⟨descriptor, member, rfl⟩ := List.mem_map.mp (known name List.mem_cons_self)
    have only : ∀ other ∈ all, other.name = descriptor.name → other = descriptor :=
      fun other inside same => List.inj_on_of_nodup_map distinct inside member same
    have found : all.find? (·.name = descriptor.name) = some descriptor := by
      obtain ⟨other, search⟩ : ∃ other, all.find? (·.name = descriptor.name) = some other :=
        Option.isSome_iff_exists.mp (List.find?_isSome.mpr ⟨descriptor, member, by simp⟩)
      rw [search, only other (List.mem_of_find?_eq_some search) (by simpa using List.find?_some search)]
    exact ⟨some descriptor.address, by rw [resolve, found], .named member only⟩

theorem resolve_error {owner name : String} {role : Role} (unknown : name ∉ all.map (·.name)) :
    resolve all owner role (some name) = .error (.unknownReplica owner role name) := by
  have missing : all.find? (·.name = name) = none := by
    rw [List.find?_eq_none]
    intro descriptor member same
    exact unknown (List.mem_map.mpr ⟨descriptor, member, by simpa using same⟩)
  rw [resolve, missing]

theorem buildNode_ok (distinct : (all.map (·.name)).Nodup) (resolves : descriptor.Resolves all) :
    ∃ node, buildNode all descriptor = .ok node ∧ descriptor.Describes all node := by
  obtain ⟨secondary, second, leads⟩ := resolve_ok distinct descriptor.name .secondary
    fun name refers => resolves name (List.mem_append_left _ refers)
  obtain ⟨tertiary, third, leadsOn⟩ := resolve_ok distinct descriptor.name .tertiary
    fun name refers => resolves name (List.mem_append_right _ refers)
  refine ⟨{ name := descriptor.name, primary := descriptor.address, secondary, tertiary }, ?_, rfl, rfl, leads, leadsOn⟩
  simp only [buildNode, second, third, bind, Except.bind, pure, Except.pure]

theorem buildNode_error (distinct : (all.map (·.name)).Nodup) (wrong : descriptor.Dangling all defect) :
    buildNode all descriptor = .error defect := by
  cases wrong with
  | secondary refers unknown =>
    simp only [buildNode, refers, resolve_error unknown, bind, Except.bind]
  | tertiary found refers unknown =>
    obtain ⟨_, second, _⟩ := resolve_ok distinct descriptor.name .secondary
      fun name refers => found name (Option.mem_toList.mp refers)
    simp only [buildNode, second, refers, resolve_error unknown, bind, Except.bind]

theorem buildNodes_ok (distinct : (all.map (·.name)).Nodup) {descriptors : List Descriptor}
    (resolved : ∀ descriptor ∈ descriptors, descriptor.Resolves all) :
    ∃ nodes, buildNodes all descriptors = .ok nodes ∧ List.Forall₂ (Descriptor.Describes all) descriptors nodes := by
  induction descriptors with
  | nil => exact ⟨[], rfl, .nil⟩
  | cons descriptor descriptors ih =>
    obtain ⟨sound, others⟩ := List.forall_mem_cons.mp resolved
    obtain ⟨node, built, described⟩ := buildNode_ok distinct sound
    obtain ⟨nodes, rest, all⟩ := ih others
    refine ⟨node :: nodes, ?_, .cons described all⟩
    simp only [buildNodes, built, rest, bind, Except.bind, pure, Except.pure]

theorem buildNodes_error (distinct : (all.map (·.name)).Nodup) (sound : ∀ other ∈ earlier, other.Resolves all)
    (wrong : descriptor.Dangling all defect) : buildNodes all (earlier ++ descriptor :: later) = .error defect := by
  induction earlier with
  | nil => simp only [List.nil_append, buildNodes, buildNode_error distinct wrong, bind, Except.bind]
  | cons first rest ih =>
    obtain ⟨own, others⟩ := List.forall_mem_cons.mp sound
    obtain ⟨node, built, _⟩ := buildNode_ok distinct own
    simp only [List.cons_append, buildNodes, built, ih others, bind, Except.bind]

theorem build_ok {config : Config} (sound : config.WellFormed) :
    ∃ topology, build config = .ok topology ∧
      List.Forall₂ (Descriptor.Describes config.nodes) config.nodes topology.nodes := by
  obtain ⟨populated, named, resolved⟩ := sound
  obtain ⟨nodes, built, described⟩ := buildNodes_ok named.distinct resolved
  have nonempty : nodes ≠ [] := by
    rintro rfl
    exact populated (List.forall₂_nil_right_iff.mp described)
  have inhabited : config.nodes.isEmpty = false := by simpa using populated
  refine ⟨{ nodes, populated := nonempty }, ?_, described⟩
  simp only [build, inhabited, checkNames_ok named, built, ofNodes?, nonempty, bind, Except.bind, Bool.false_eq_true,
    if_false, dite_true, ne_eq, not_false_eq_true]

theorem build_error {config : Config} (flawed : config.Flawed defect) : build config = .error defect := by
  have inhabited {earlier later : List Descriptor} {descriptor : Descriptor}
      (listed : config.nodes = earlier ++ descriptor :: later) : config.nodes.isEmpty = false := by simp [listed]
  cases flawed with
  | empty nobody => simp [build, nobody, bind, Except.bind]
  | name listed sound wrong =>
    have refused := checkNames_error sound wrong
    rw [build, inhabited listed, listed, refused]
    rfl
  | reference named listed sound wrong =>
    have failed : buildNodes config.nodes config.nodes = .error defect := by
      rw [listed] at sound wrong named ⊢
      exact buildNodes_error named.distinct sound wrong
    rw [build, inhabited listed, checkNames_ok named, failed]
    rfl

theorem build_ok_iff {config : Config} : (∃ topology, build config = .ok topology) ↔ config.WellFormed := by
  constructor
  · rintro ⟨topology, built⟩
    rcases config.wellFormed_or_flawed with sound | ⟨defect, flawed⟩
    · exact sound
    · cases built.symm.trans (build_error flawed)
  · intro sound
    obtain ⟨topology, built, _⟩ := build_ok sound
    exact ⟨topology, built⟩

theorem build_described {config : Config} {topology : Topology} (built : build config = .ok topology) :
    List.Forall₂ (Descriptor.Describes config.nodes) config.nodes topology.nodes := by
  obtain ⟨other, same, described⟩ := build_ok (build_ok_iff.mp ⟨topology, built⟩)
  cases built.symm.trans same
  exact described

theorem build_primaries {config : Config} {topology : Topology} (built : build config = .ok topology) :
    topology.nodes.map (·.primary) = config.nodes.map (·.address) := by
  have paired : List.Forall₂ (· = ·) (config.nodes.map (·.address)) (topology.nodes.map (·.primary)) :=
    List.forall₂_map_left_iff.mpr (List.forall₂_map_right_iff.mpr
      ((build_described built).imp fun _ _ described => described.primary.symm))
  rw [List.forall₂_eq_eq_eq] at paired
  exact paired.symm

theorem build_replicas {config : Config} {topology : Topology} (built : build config = .ok topology) :
    ∀ node ∈ topology.nodes, ∀ address ∈ node.secondary.toList ++ node.tertiary.toList,
      ∃ descriptor ∈ config.nodes, descriptor.address = address := by
  intro node member address replica
  obtain ⟨index, inside, rfl⟩ := List.getElem_of_mem member
  have described := build_described built
  have described := described.get (described.length_eq ▸ inside) inside
  rcases List.mem_append.mp replica with second | third
  · exact described.secondary.known (Option.mem_toList.mp second)
  · exact described.tertiary.known (Option.mem_toList.mp third)

theorem build_error_iff {config : Config} : build config = .error defect ↔ config.Flawed defect := by
  refine ⟨fun failed => ?_, build_error⟩
  rcases config.wellFormed_or_flawed with sound | ⟨other, flawed⟩
  · obtain ⟨topology, built, _⟩ := build_ok sound
    cases failed.symm.trans built
  · cases failed.symm.trans (build_error flawed)
    exact flawed

/-- Exactly the well-formed configurations are built. Each shard is then the one that its descriptor describes, at the
same place in the list. Of any other configuration the first thing wrong with it is told, as a failure of the
configuration. -/
theorem builds_well_formed (config : Config) :
    ((∃ topology, build config = .ok topology) ↔ config.WellFormed) ∧
      (∀ topology, build config = .ok topology →
        List.Forall₂ (Descriptor.Describes config.nodes) config.nodes topology.nodes) ∧
      (∀ defect, build config = .error defect ↔ config.Flawed defect) ∧
      ∀ defect, config.Flawed defect →
        (build config).mapError Defect.toError = .error (.configuration defect.message) := by
  refine ⟨build_ok_iff, fun _ => build_described, fun _ => build_error_iff, ?_⟩
  intro defect flawed
  rw [build_error flawed]
  rfl

/-- Two machines that refer to one another, and the first one to itself as well. -/
private def entwined : Config where
  nodes :=
    [ { name := "a", address := ⟨⟨"tcp://a"⟩, ⟨"queue://a"⟩⟩, secondary := some "b", tertiary := some "a" },
      { name := "b", address := ⟨⟨"tcp://b"⟩, ⟨"queue://b"⟩⟩, secondary := none, tertiary := some "a" } ]

/-- A machine that refers to nobody, one whose name nobody can see, and the first one once more. -/
private def scrawled : Config where
  nodes :=
    [ { name := "a", address := ⟨⟨"tcp://a"⟩, ⟨"queue://a"⟩⟩, secondary := some "z", tertiary := none },
      { name := "\u00a0 ", address := ⟨⟨"tcp://b"⟩, ⟨"queue://b"⟩⟩, secondary := none, tertiary := none },
      { name := "a", address := ⟨⟨"tcp://a"⟩, ⟨"queue://a"⟩⟩, secondary := none, tertiary := none } ]

/-- The first is built as it stands. Of the second the name that cannot be seen is told. -/
theorem entwined_built_scrawled_told :
    (∃ topology, build entwined = .ok topology ∧
      List.Forall₂ (Descriptor.Describes entwined.nodes) entwined.nodes topology.nodes) ∧
    build scrawled = .error (.blankName 1) := by
  have sound : entwined.WellFormed := by
    refine ⟨List.cons_ne_nil _ _, ⟨by decide +kernel, by decide +kernel⟩, ?_⟩
    unfold Descriptor.Resolves
    decide
  have first : Descriptor.WellNamed [scrawled.nodes[0]] := ⟨by decide +kernel, by decide +kernel⟩
  obtain ⟨accepted, described, _⟩ := builds_well_formed entwined
  obtain ⟨_, _, told, _⟩ := builds_well_formed scrawled
  obtain ⟨topology, built⟩ := accepted.mpr sound
  refine ⟨⟨topology, built, described topology built⟩, (told _).mpr ?_⟩
  exact .name (show scrawled.nodes = [scrawled.nodes[0]] ++ _ :: _ from rfl) first (.blank (by decide +kernel))

end Topology
end ReplicaRing
