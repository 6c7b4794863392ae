import Mathlib.Data.List.Duplicate
import Mathlib.Data.List.Forall2
import Mathlib.Data.List.Nodup
import ReplicaRing.Proofs.Parsing
import ReplicaRing.Topology.File

/-! A topology file may say the same in many ways. Whoever writes one down is free in the order of members, in members
that nobody knows, in references that are absent, in blanks and in the spelling of texts, and what is read is the same
configuration. But each known member is said once, and nothing follows the file. -/

namespace ReplicaRing

abbrev Json.Member := Option (List Char) × Json

namespace Config

open Json (Member)

/-- A reference that is absent may be left out. -/
def Omissible (member : Member) : Prop :=
  member = named "secondary" .null ∨ member = named "tertiary" .null

/-- A member whose name is a text, but of none of some members. -/
def Foreign (members : List Member) (member : Member) : Prop :=
  ∃ name, member.1 = some name ∧ some name ∉ members.map (·.1)

/-- Members that say what some members say: a part of them is left out, foreign ones are added, and they stand in any
order. -/
inductive Altered (members : List Member) : List Member → Prop where
  | intro {kept omitted added others : List Member} (parted : members.Perm (kept ++ omitted))
      (omissible : ∀ member ∈ omitted, Omissible member) (foreign : ∀ member ∈ added, Foreign members member)
      (joined : others.Perm (kept ++ added)) : Altered members others

/-- The records that say of a machine what is written for it. -/
inductive Restates (descriptor : Descriptor) : Json → Prop where
  | intro {members others : List Member} (written : descriptorJson descriptor = .object members)
      (altered : Altered members others) : Restates descriptor (.object others)

/-- The trees that say what is written for a configuration. -/
inductive Conveys (config : Config) : Json → Prop where
  | intro {items : List Json} {others : List Member} (restated : List.Forall₂ Restates config.nodes items)
      (altered : Altered [named "nodes" (.array items)] others) : Conveys config (.object others)

def Tells (config : Config) (text : String) : Prop :=
  ∃ value, config.Conveys value ∧ value.Spelling text.toList

def known : List String :=
  ["name", "sync_uri", "async_uri", "secondary", "tertiary"]

/-- The items that a tree gives for the nodes. -/
inductive Lists (items : List Json) : Json → Prop where
  | named {members : List Member} (listed : named "nodes" (.array items) ∈ members) : Lists items (.object members)
  | placed : Lists items (.array [.array items])

/-- A known member is said twice, be it in the outermost record or in the record of a machine. -/
inductive Repeats : Json → Prop where
  | outermost {members : List Member} (twice : List.Duplicate (some "nodes".toList) (members.map (·.1))) :
      Repeats (.object members)
  | machine {value : Json} {items : List Json} {fields : List Member} {name : String} (lists : Lists items value)
      (item : .object fields ∈ items) (asked : name ∈ known)
      (twice : List.Duplicate (some name.toList) (fields.map (·.1))) : Repeats value

/-- Something other than blanks follows a tree. -/
def Overruns (text : String) : Prop :=
  ∃ value front behind, text.toList = front ++ behind ∧ Json.Spelling value front ∧
    ∃ char ∈ behind, Json.isSpace char = false

/-- Members under texts of their own, so that each is found by its name. -/
structure Titled (members : List Member) : Prop where
  texts : ∀ member ∈ members, member.1.isSome = true
  distinct : (members.map (·.1)).Nodup

section Members

variable {members others : List Member} {name : String} {value : Json}

theorem member_of_single {found : Member} (texts : ∀ member ∈ members, member.1.isSome = true)
    (single : members.filter (·.1 = some name.toList) = [found]) : member members name = some (some found.2) := by
  rw [member, if_pos (List.all_eq_true.mpr texts), single]

theorem member_of_none (texts : ∀ member ∈ members, member.1.isSome = true)
    (absent : members.filter (·.1 = some name.toList) = []) : member members name = some none := by
  rw [member, if_pos (List.all_eq_true.mpr texts), absent]

theorem filter_name {found : Member} (distinct : (members.map (·.1)).Nodup) (present : found ∈ members)
    (same : found.1 = some name.toList) : members.filter (·.1 = some name.toList) = [found] := by
  induction members with
  | nil => cases present
  | cons first rest ih =>
    obtain ⟨fresh, distinct⟩ := List.nodup_cons.mp distinct
    rcases List.mem_cons.mp present with rfl | later
    · have others : rest.filter (·.1 = some name.toList) = [] := by
        rw [List.filter_eq_nil_iff]
        intro other member also
        rw [decide_eq_true_eq, ← same] at also
        exact fresh (List.mem_map.mpr ⟨other, member, also⟩)
      rw [List.filter_cons_of_pos (by simpa using same), others]
    · have different : first.1 ≠ some name.toList := by
        intro also
        exact fresh (List.mem_map.mpr ⟨found, later, same.trans also.symm⟩)
      rw [List.filter_cons_of_neg (by simpa using different), ih distinct later]

theorem Altered.member (altered : Altered members others) (titled : Titled members)
    (given : named name value ∈ members) :
    Config.member others name = some (some value) ∨
      Omissible (named name value) ∧ Config.member others name = some none := by
  cases altered with
  | @intro kept omitted added _ parted omissible foreign joined =>
    have textual : ∀ member ∈ others, member.1.isSome = true := by
      intro member listed
      rcases List.mem_append.mp (joined.mem_iff.mp listed) with old | new
      · exact titled.texts member (parted.mem_iff.mpr (List.mem_append_left _ old))
      · obtain ⟨_, text, _⟩ := foreign member new
        rw [text]
        rfl
    have unknown : added.filter (·.1 = some name.toList) = [] := by
      rw [List.filter_eq_nil_iff]
      intro member new also
      obtain ⟨other, text, absent⟩ := foreign member new
      rw [decide_eq_true_eq, text] at also
      exact absent (also ▸ List.mem_map.mpr ⟨_, given, rfl⟩)
    have found := joined.filter (·.1 = some name.toList)
    rw [List.filter_append, unknown, List.append_nil] at found
    have whole := parted.filter (·.1 = some name.toList)
    rw [filter_name titled.distinct given rfl, List.filter_append] at whole
    rcases List.append_eq_singleton_iff.mp (List.singleton_perm.mp whole).symm with ⟨left, out⟩ | ⟨left, _⟩
    · right
      rw [left] at found
      obtain ⟨dropped, _⟩ := List.mem_filter.mp (out ▸ List.mem_singleton_self _)
      exact ⟨omissible _ dropped, member_of_none textual (List.perm_nil.mp found)⟩
    · left
      rw [left] at found
      exact member_of_single textual (List.perm_singleton.mp found)

theorem Altered.required (altered : Altered members others) (titled : Titled members)
    (given : named name value ∈ members) (required : name ≠ "secondary" ∧ name ≠ "tertiary") :
    Config.member others name = some (some value) := by
  rcases altered.member titled given with found | ⟨omissible, _⟩
  · exact found
  · have known := omissible.imp (congrArg Prod.fst) (congrArg Prod.fst)
    simp only [named, Option.some.injEq, String.toList_inj] at known
    exact absurd known (not_or.mpr required)

theorem Altered.reference (altered : Altered members others) (titled : Titled members) {reference : Option String}
    (given : named name (referenceJson reference) ∈ members) :
    ∃ found, Config.member others name = some found ∧ readOptionalReference found = some reference := by
  rcases altered.member titled given with found | ⟨omissible, found⟩
  · refine ⟨_, found, ?_⟩
    cases reference <;> simp [readOptionalReference, readReference, referenceJson, textJson, readText]
  · refine ⟨none, found, ?_⟩
    have absent := omissible.elim (congrArg Prod.snd) (congrArg Prod.snd)
    cases reference with
    | none => rfl
    | some => cases absent

theorem Altered.refl (members : List Member) : Altered members members := by
  have whole : members.Perm (members ++ []) := by rw [List.append_nil]
  refine .intro whole ?_ ?_ whole <;> nofun

theorem value_of_member {found : Json} (given : named name value ∈ members)
    (asked : member members name = some (some found)) : found = value := by
  have among : named name value ∈ members.filter (·.1 = some name.toList) :=
    List.mem_filter.mpr ⟨given, decide_eq_true rfl⟩
  unfold member at asked
  split at asked
  · split at asked
    · cases asked
    · next single =>
      cases asked
      rw [single] at among
      exact congrArg Prod.snd (List.mem_singleton.mp among).symm
    · cases asked
  · cases asked

theorem member_of_duplicate (twice : List.Duplicate (some name.toList) (members.map (·.1))) :
    member members name = none := by
  have both := (List.duplicate_iff_sublist.mp twice).filter (· = some name.toList)
  rw [List.filter_map] at both
  have several : 2 ≤ (members.filter (·.1 = some name.toList)).length := by
    simpa [Function.comp_def] using both.length_le
  unfold member
  split
  · split
    · next none => simp [none] at several
    · next single => simp [single] at several
    · rfl
  · rfl

end Members

theorem readText_textJson (text : String) : readText (textJson text) = some text := by
  rw [textJson, readText, String.ofList_toList]

theorem titled_descriptor {descriptor : Descriptor} {members : List Member}
    (written : descriptorJson descriptor = .object members) : Titled members := by
  cases written
  have distinct : (known.map fun name => some name.toList).Nodup := by decide
  exact ⟨by simp [named], distinct⟩

theorem Restates.read {descriptor : Descriptor} {value : Json} (restates : Restates descriptor value) :
    readDescriptor value = some descriptor := by
  cases restates with
  | intro written altered =>
    have titled := titled_descriptor written
    cases written
    have name := altered.required titled (.head _) (by decide)
    have sync := altered.required titled (.tail _ (.head _)) (by decide)
    have async := altered.required titled (.tail _ (.tail _ (.head _))) (by decide)
    obtain ⟨second, secondary, secondRead⟩ :=
      altered.reference titled (.tail _ (.tail _ (.tail _ (.head _))))
    obtain ⟨third, tertiary, thirdRead⟩ :=
      altered.reference titled (.tail _ (.tail _ (.tail _ (.tail _ (.head _)))))
    simp only [readDescriptor, name, sync, async, secondary, tertiary, descriptorOf, readText_textJson, secondRead,
      thirdRead, Option.bind_eq_bind, Option.bind_some, Option.pure_def]

theorem mapM_eq_some_iff {items : List Json} {descriptors : List Descriptor} :
    items.mapM readDescriptor = some descriptors ↔
      List.Forall₂ (fun item descriptor => readDescriptor item = some descriptor) items descriptors := by
  induction items generalizing descriptors with
  | nil => simp [eq_comm]
  | cons item items ih =>
    rw [List.mapM_cons]
    constructor
    · intro read
      obtain ⟨descriptor, first, read⟩ := Option.bind_eq_some_iff.mp read
      obtain ⟨others, later, same⟩ := Option.bind_eq_some_iff.mp read
      cases same
      exact .cons first (ih.mp later)
    · rintro (_ | ⟨first, later⟩)
      rw [first, ih.mpr later]
      rfl

theorem Conveys.read {config : Config} {value : Json} (conveys : config.Conveys value) :
    ofJson value = some config := by
  cases conveys with
  | intro restated altered =>
    have titled : ∀ nodes, Titled [named "nodes" nodes] := fun nodes => ⟨by simp [named], List.nodup_singleton _⟩
    have nodes := altered.required (titled _) (.head _) (by decide)
    have machines := mapM_eq_some_iff.mpr (restated.imp fun _ _ restates => restates.read).flip
    simp only [ofJson, nodes, Option.bind_eq_bind, Option.bind_some, readNodes, machines, Option.map_some]

theorem conveys_toJson (config : Config) : config.Conveys config.toJson := by
  refine .intro ?_ (.refl _)
  rw [List.forall₂_map_right_iff, List.forall₂_same]
  exact fun descriptor _ => .intro rfl (.refl _)

theorem not_duplicate_of_read {fields : List Member} {descriptor : Descriptor}
    (read : readDescriptor (.object fields) = some descriptor) {name : String} (asked : name ∈ known) :
    ¬ List.Duplicate (some name.toList) (fields.map (·.1)) := by
  simp only [readDescriptor, Option.bind_eq_bind, Option.bind_eq_some_iff] at read
  obtain ⟨_, called, _, sync, _, async, _, secondary, _, tertiary, _⟩ := read
  have found : ∀ name ∈ known, member fields name ≠ none := by
    simp [known, called, sync, async, secondary, tertiary]
  exact fun twice => found name asked (member_of_duplicate twice)

theorem Lists.read {items : List Json} {value : Json} {config : Config} (lists : Lists items value)
    (read : ofJson value = some config) {item : Json} (listed : item ∈ items) :
    ∃ descriptor, readDescriptor item = some descriptor := by
  have nodes : readNodes (.array items) = some config := by
    cases lists with
    | placed => exact read
    | named among =>
      simp only [ofJson, Option.bind_eq_bind, Option.bind_eq_some_iff] at read
      obtain ⟨_, asked, found, rfl, nodes⟩ := read
      rwa [value_of_member among asked] at nodes
  obtain ⟨descriptors, machines, _⟩ := Option.map_eq_some_iff.mp nodes
  have each := mapM_eq_some_iff.mp machines
  obtain ⟨position, rfl⟩ := List.get_of_mem listed
  exact ⟨_, each.get position.2 (each.length_eq ▸ position.2)⟩

theorem Repeats.unread {value : Json} (repeats : Repeats value) : ofJson value = none := by
  rw [Option.eq_none_iff_forall_ne_some]
  intro config read
  cases repeats with
  | outermost twice => simp [ofJson, member_of_duplicate twice] at read
  | machine lists item asked twice =>
    obtain ⟨descriptor, machine⟩ := lists.read read item
    exact not_duplicate_of_read machine asked twice

section Texts

variable {config : Config} {text : String}

theorem read_eq_ok_iff :
    read text = .ok config ↔ ∃ value : Json, value.Spelling text.toList ∧ ofJson value = some config := by
  simp only [← Json.read_eq_some_iff, ← Option.bind_eq_some_iff]
  rw [read]
  split
  · next found => simp [found]
  · next found => simp [found]

theorem read_eq_error (unread : ∀ value : Json, value.Spelling text.toList → ofJson value = none) :
    read text = .error invalidText := by
  have nothing : (Json.read text.toList).bind ofJson = none := by
    rw [Option.bind_eq_none_iff]
    exact fun value parsed => unread value (Json.read_eq_some_iff.mp parsed)
  rw [read, nothing]

theorem write_toJson (config : Config) : config.toJson.Spelling config.write.toList := by
  rw [write, String.toList_ofList]
  refine Json.spelling_write _ fun spelling listed => ?_
  have reference (name : Option String) : Json.Token.number spelling ∉ Json.tokens (referenceJson name) := by
    cases name <;> simp [referenceJson, textJson, Json.tokens]
  simp only [toJson, Json.tokens, Json.memberTokens, named, List.mem_cons, List.mem_append, List.not_mem_nil, or_false,
    reduceCtorEq, false_or] at listed
  rcases Json.mem_itemTokens listed with comma | ⟨item, among, listed⟩
  · cases comma
  · obtain ⟨descriptor, _, rfl⟩ := List.mem_map.mp among
    simp [descriptorJson, Json.tokens, Json.memberTokens, named, textJson, reference] at listed

theorem begins_of_ofJson {value : Json} (read : ofJson value = some config) {text : List Char}
    (spelling : value.Spelling text) : ∃ more, text.dropWhile Json.isSpace = '[' :: more ∨
      text.dropWhile Json.isSpace = '\x7b' :: more := by
  cases value with
  | array items =>
    obtain ⟨_, _, more, opening, dropped⟩ := Json.Token.Spaced.begins spelling []
    cases opening
    rw [List.append_nil] at dropped
    exact ⟨more, Or.inl dropped⟩
  | object members =>
    obtain ⟨_, _, more, opening, dropped⟩ := Json.Token.Spaced.begins spelling []
    cases opening
    rw [List.append_nil] at dropped
    exact ⟨more, Or.inr dropped⟩
  | _ => cases read

theorem Overruns.unread (overruns : Overruns text) {other : Json} (spelled : other.Spelling text.toList) :
    ofJson other = none := by
  obtain ⟨value, front, behind, joined, spelling, char, more, solid⟩ := overruns
  rw [joined] at spelled
  by_cases number : ∃ digits, value = .number digits
  · -- what follows may belong to the number, but nothing that begins with a number is read
    obtain ⟨digits, rfl⟩ := number
    obtain ⟨_, _, _, opening, begins⟩ := Json.Token.Spaced.begins spelling behind
    cases opening with
    | number numeral =>
      obtain ⟨first, _, same, digit⟩ := numeral.first
      cases same
      rw [Option.eq_none_iff_forall_ne_some]
      intro config taken
      obtain ⟨_, bracket⟩ := begins_of_ofJson taken spelled
      rw [begins, List.cons.injEq, List.cons.injEq] at bracket
      rcases bracket with ⟨rfl, _⟩ | ⟨rfl, _⟩ <;> exact absurd digit (by decide)
  · have plain : ∀ digits, value ≠ .number digits := not_exists.mp number
    rw [Json.blank_of_read spelling plain (Json.read_eq_some_iff.mpr spelled) char more] at solid
    cases solid

/-- What is written is read back, and so is whatever else tells the same. What says a known member twice, has anything
but blanks behind a tree, or is no tree at all, is refused. -/
theorem restated_read_back (config : Config) (text : String) :
    config.Tells config.write ∧ (config.Tells text → read text = .ok config) ∧
    ((∃ value, Json.Spelling value text.toList ∧ Repeats value) ∨ Overruns text ∨
        (∀ value, ¬ Json.Spelling value text.toList) →
      read text = .error (.configuration "invalid topology json")) := by
  refine ⟨⟨_, conveys_toJson config, write_toJson config⟩, ?_, ?_⟩
  · rintro ⟨value, conveys, spelling⟩
    exact read_eq_ok_iff.mpr ⟨value, spelling, conveys.read⟩
  · rintro (⟨value, spelling, repeats⟩ | overruns | unspelled)
    · refine read_eq_error fun other spelled => ?_
      have same := Json.read_eq_some_iff.mpr spelled
      rw [Json.read_eq_some_iff.mpr spelling] at same
      cases same
      exact repeats.unread
    · exact read_eq_error fun _ spelled => overruns.unread spelled
    · exact read_eq_error fun value spelled => absurd spelled (unspelled value)

end Texts

/-- A machine whose name is hard to spell, and one that refers to itself. -/
private def awkward : Config where
  nodes :=
    [ { name := "\"\\\x01é😀", address := ⟨⟨"s"⟩, ⟨"q"⟩⟩, secondary := none, tertiary := none },
      { name := "b", address := ⟨⟨"t"⟩, ⟨"r"⟩⟩, secondary := some "b", tertiary := none } ]

/-- All members from last to first, no word of the references that are absent, and much that nobody asks for. -/
private def scramble : String :=
  "\n\x7b\"x\": 1e400, \"x\":[[[\"\\ud800\",\x7b\"y\":-0.5,\"y\":[]\x7d]]],\t\"nodes\" : [" ++
  "\x7b\"async_uri\":\"q\",\"sync_uri\":\"s\",\r\n\"n\\u0061me\":\"\\\"\\\\\\u0001é\\ud83d\\uDE00\"\x7d , " ++
  "\x7b\"\\/\":null,\"secondary\":\"b\",\"async_uri\":\"r\",\"sync_uri\":\"t\",\"name\":\"b\"\x7d]\x7d "

/-- What of the two machines is left in it. -/
private def leftovers : List Member × List Member :=
  ([named "name" (textJson "\"\\\x01é😀"), named "sync_uri" (textJson "s"), named "async_uri" (textJson "q")],
    [named "name" (textJson "b"), named "sync_uri" (textJson "t"), named "async_uri" (textJson "r"),
      named "secondary" (textJson "b")])

private def scrambledItems : List Json :=
  [.object (leftovers.1 ++ []).reverse, .object (leftovers.2 ++ [named "/" .null]).reverse]

private def unasked : List Member :=
  [ named "x" (.array [.array [.array [.string none,
      .object [named "y" (.number ['-', '0', '.', '5']), named "y" (.array [])]]]]),
    named "x" (.number ['1', 'e', '4', '0', '0']) ]

private def scrambled : Json :=
  .object ([named "nodes" (.array scrambledItems)] ++ unasked).reverse

private theorem scramble_spelled : scrambled.Spelling scramble.toList := by
  have scanned : Json.Token.scan scramble.toList = some (Json.tokens scrambled) := by decide +kernel
  exact Json.Token.spaced_of_scan scanned

private theorem awkward_tells : awkward.Tells scramble := by
  have first : Altered (leftovers.1 ++ [named "secondary" .null, named "tertiary" .null]) (leftovers.1 ++ []).reverse :=
    .intro (.refl _) (by simp [Omissible]) (by simp) (List.reverse_perm _)
  have second : Altered (leftovers.2 ++ [named "tertiary" .null]) (leftovers.2 ++ [named "/" .null]).reverse :=
    .intro (.refl _) (by simp [Omissible]) (by simp [Foreign, named, leftovers]) (List.reverse_perm _)
  have outermost : Altered ([named "nodes" (.array scrambledItems)] ++ [])
      ([named "nodes" (.array scrambledItems)] ++ unasked).reverse :=
    .intro (.refl _) nofun (by simp [Foreign, named, unasked]) (List.reverse_perm _)
  have machines : List.Forall₂ Restates awkward.nodes scrambledItems :=
    .cons (.intro rfl first) (.cons (.intro rfl second) .nil)
  exact ⟨scrambled, .intro machines outermost, scramble_spelled⟩

/-- A machine that has its name twice. -/
private def twiceNamed : String :=
  "\x7b\"nodes\":[\x7b\"name\":\"a\",\"n\\u0061me\":\"a\"\x7d]\x7d"

private def twice : Json :=
  .object [named "nodes" (.array [.object [named "name" (textJson "a"), named "name" (textJson "a")]])]

/-- The scramble is read all the same, but not with a comma behind it, nor is a machine read that has its name twice. -/
theorem scramble_read_back :
    read scramble = .ok awkward ∧
    read (scramble ++ ",") = .error (.configuration "invalid topology json") ∧
    read twiceNamed = .error (.configuration "invalid topology json") := by
  have overruns : Overruns (scramble ++ ",") :=
    ⟨_, _, [','], String.toList_append, scramble_spelled, ',', List.mem_singleton_self _, rfl⟩
  have repeats : Repeats twice :=
    .machine (.named List.mem_cons_self) List.mem_cons_self List.mem_cons_self (.cons_mem List.mem_cons_self)
  have scanned : Json.Token.scan twiceNamed.toList = some (Json.tokens twice) := by decide +kernel
  have spelling : twice.Spelling twiceNamed.toList := Json.Token.spaced_of_scan scanned
  obtain ⟨_, accepted, _⟩ := restated_read_back awkward scramble
  obtain ⟨_, _, longer⟩ := restated_read_back awkward (scramble ++ ",")
  obtain ⟨_, _, doubled⟩ := restated_read_back awkward twiceNamed
  exact ⟨accepted awkward_tells, longer (Or.inr (Or.inl overruns)), doubled (Or.inl ⟨twice, spelling, repeats⟩)⟩

end Config
end ReplicaRing
