import Mathlib.Algebra.Group.Nat.Defs
import ReplicaRing.Proofs.Spelling
import ReplicaRing.Wire.Frame

/-! Formats read back what they write, whatever is behind it, and read nothing else. The law is proved for the
smallest formats and kept by every way of putting formats together, so it holds of all that is sent. A frame
has then one meaning, and no part of a frame is a frame. -/

namespace ReplicaRing.Wire

/-- Values whose texts and lists are so short that their lengths can be written. -/
class Measured (α : Type) where
  Fits : α → Prop

export Measured (Fits)

section Measures

variable {α β : Type} [Measured α] [Measured β]

instance : Measured Unit := ⟨fun _ => True⟩
instance : Measured Bool := ⟨fun _ => True⟩
instance : Measured UInt8 := ⟨fun _ => True⟩
instance : Measured UInt32 := ⟨fun _ => True⟩
instance : Measured UInt64 := ⟨fun _ => True⟩
instance : Measured (BitVec 128) := ⟨fun _ => True⟩
instance {width : Nat} : Measured (Vector UInt8 width) := ⟨fun _ => True⟩
instance : Measured String := ⟨fun text => (Utf8.ofString text).length < 2 ^ 64⟩
instance : Measured (List α) := ⟨fun values => values.length < 2 ^ 64 ∧ ∀ value ∈ values, Fits value⟩
instance : Measured (Option α) := ⟨fun value => ∀ content ∈ value, Fits content⟩
instance : Measured (α × β) := ⟨fun pair => Fits pair.1 ∧ Fits pair.2⟩

end Measures

/-- A format that reads back what it writes, whatever is behind, and reads nothing that it would not have
written. -/
structure Format.Lawful {α : Type} [Measured α] (format : Format α) : Prop where
  read_write : ∀ value rest, Fits value → format.read (format.write value ++ rest) = .ok (value, rest)
  write_read : ∀ {bytes value rest}, format.read bytes = .ok (value, rest) →
    Fits value ∧ bytes = format.write value ++ rest

namespace Format

variable {α β : Type} [Measured α] [Measured β]

theorem lawful_empty : empty.Lawful where
  read_write _ _ _ := rfl
  write_read read := by
    cases read
    exact ⟨trivial, rfl⟩

theorem lawful_map {format : Format α} (lawful : format.Lawful) {make : α → β} {parts : β → α}
    (made : ∀ value, make (parts value) = value) (parted : ∀ value, parts (make value) = value)
    (fits : ∀ value, Fits value ↔ Fits (parts value)) : (format.map make parts).Lawful where
  read_write value rest small := by
    simp only [map, lawful.read_write _ rest ((fits value).mp small), Except.map, made]
  write_read {bytes value rest} read := by
    simp only [map] at read ⊢
    cases found : format.read bytes with
    | error _ => simp [found, Except.map] at read
    | ok pair =>
      obtain ⟨content, left⟩ := pair
      simp only [found, Except.map, Except.ok.injEq, Prod.mk.injEq] at read
      obtain ⟨rfl, rfl⟩ := read
      rw [fits, parted]
      exact lawful.write_read found

theorem lawful_both {first : Format α} {second : Format β} (left : first.Lawful) (right : second.Lawful) :
    (both first second).Lawful where
  read_write value rest small := by
    simp only [both, List.append_assoc, left.read_write _ _ small.1, right.read_write _ _ small.2, bind, Except.bind]
    rfl
  write_read {bytes value rest} read := by
    simp only [both, bind, Except.bind] at read ⊢
    cases front : first.read bytes with
    | error _ => simp [front] at read
    | ok one =>
      cases back : second.read one.2 with
      | error _ => simp [front, back] at read
      | ok two =>
        simp only [front, back, pure, Except.pure, Except.ok.injEq, Prod.mk.injEq] at read
        obtain ⟨rfl, rfl⟩ := read
        obtain ⟨fitsFirst, frontBytes⟩ := left.write_read front
        obtain ⟨fitsSecond, backBytes⟩ := right.write_read back
        exact ⟨⟨fitsFirst, fitsSecond⟩, by rw [frontBytes, backBytes, List.append_assoc]⟩

private theorem split_append (front rest : Bytes) :
    split front.length (front ++ rest) = .ok (front, rest) := by
  simp [split]

private theorem eq_append_of_split {width : Nat} {bytes front rest : Bytes}
    (read : split width bytes = .ok (front, rest)) :
    front.length = width ∧ bytes = front ++ rest := by
  unfold split at read
  split at read
  · cases read
  · cases read
    exact ⟨List.length_take_of_le (by omega), (List.take_append_drop width bytes).symm⟩

/-- A number of fixed width, under another name. -/
private theorem lawful_number {width : Nat} {make : Nat → α} {count : α → Nat} (any : ∀ value : α, Fits value)
    (small : ∀ value, count value < 1 <<< (8 * width)) (made : ∀ value, make (count value) = value)
    (counted : ∀ number < 1 <<< (8 * width), count (make number) = number) :
    ({ write := fun value => Bytes.littleEndian width (count value)
       read := fun bytes => (split width bytes).map fun (word, rest) => (make (Bytes.number word), rest) } :
      Format α).Lawful where
  read_write value rest _ := by
    have exact_width := Bytes.length_littleEndian width (count value)
    have front := split_append (Bytes.littleEndian width (count value)) rest
    rw [exact_width] at front
    simp only [front, Except.map, Bytes.number_littleEndian, Nat.mod_eq_of_lt (small value), made]
  write_read {bytes value rest} read := by
    refine ⟨any value, ?_⟩
    simp only at read
    cases found : split width bytes with
    | error _ => simp [found, Except.map] at read
    | ok pair =>
      obtain ⟨front, left⟩ := pair
      simp only [found, Except.map, Except.ok.injEq, Prod.mk.injEq] at read
      obtain ⟨rfl, rfl⟩ := read
      obtain ⟨rfl, joined⟩ := eq_append_of_split found
      have same := Bytes.littleEndian_number front
      rw [← counted _ (Bytes.number_lt front)] at same
      exact joined.trans (congrArg (· ++ left) same.symm)

theorem lawful_word32 : word32.Lawful :=
  lawful_number (fun _ => trivial) (fun value => value.toNat_lt) (fun _ => UInt32.ofNat_toNat) fun _ small =>
    UInt32.toNat_ofNat_of_lt' small

theorem lawful_word64 : word64.Lawful :=
  lawful_number (fun _ => trivial) (fun value => value.toNat_lt) (fun _ => UInt64.ofNat_toNat) fun _ small =>
    UInt64.toNat_ofNat_of_lt' small

theorem lawful_word128 : word128.Lawful :=
  lawful_number (fun _ => trivial) (fun value => value.isLt) (fun value => BitVec.ofNat_toNat 128 value) fun _ small =>
    (BitVec.toNat_ofNat _ 128).trans (Nat.mod_eq_of_lt small)

theorem lawful_byte : byte.Lawful where
  read_write _ _ _ := rfl
  write_read {bytes value rest} read := by
    cases bytes with
    | nil => cases read
    | cons first bytes =>
      cases read
      exact ⟨trivial, rfl⟩

theorem lawful_bool : bool.Lawful where
  read_write value rest _ := by
    cases value <;> rfl
  write_read {bytes value rest} read := by
    refine ⟨trivial, ?_⟩
    cases bytes with
    | nil => cases read
    | cons tag bytes =>
      simp only [bool] at read ⊢
      split at read
      · next zero =>
        cases read
        rw [zero]
        rfl
      · split at read
        · next one =>
          cases read
          rw [one]
          rfl
        · cases read

theorem lawful_option {format : Format α} (lawful : format.Lawful) : (option format).Lawful where
  read_write value rest small := by
    cases value with
    | none => rfl
    | some content =>
      have read := lawful.read_write content rest (small content rfl)
      simp only [option, List.cons_append, read]
      rfl
  write_read {bytes value rest} read := by
    cases bytes with
    | nil => cases read
    | cons tag bytes =>
      simp only [option] at read ⊢
      split at read
      · next zero =>
        cases read
        rw [zero]
        exact ⟨nofun, rfl⟩
      · split at read
        · next one =>
          cases found : format.read bytes with
          | error _ => simp [found, Except.map] at read
          | ok pair =>
            obtain ⟨content, left⟩ := pair
            simp only [found, Except.map, Except.ok.injEq, Prod.mk.injEq] at read
            obtain ⟨rfl, rfl⟩ := read
            obtain ⟨small, joined⟩ := lawful.write_read found
            refine ⟨?_, by rw [one, joined]; rfl⟩
            intro other same
            cases same
            exact small
        · cases read

theorem lawful_block (width : Nat) : (block width).Lawful where
  read_write value rest _ := by
    have enough : ¬ (value.toList ++ rest).length < width := by simp
    simp only [block, dif_neg enough, Except.ok.injEq, Prod.mk.injEq]
    constructor
    · apply Vector.toList_inj.mp
      simp
    · simp
  write_read {bytes value rest} read := by
    refine ⟨trivial, ?_⟩
    simp only [block] at read ⊢
    split at read
    · cases read
    · cases read
      simp

private theorem size_eq {length : Nat} (small : length < 2 ^ 64) :
    size length = word64.write (UInt64.ofNat length) := by
  simp only [size, word64, UInt64.toNat_ofNat_of_lt' small]

private theorem readMany_write {format : Format α} (lawful : format.Lawful) {values : List α} (rest : Bytes)
    (small : ∀ value ∈ values, Fits value) :
    readMany format values.length (values.flatMap format.write ++ rest) = .ok (values, rest) := by
  induction values with
  | nil => rfl
  | cons value values ih =>
    have first := lawful.read_write value (values.flatMap format.write ++ rest) (small value List.mem_cons_self)
    have later := ih fun other member => small other (List.mem_cons_of_mem _ member)
    simp only [List.flatMap_cons, List.append_assoc, List.length_cons, readMany, first, later, bind, Except.bind]
    rfl

private theorem write_readMany {format : Format α} (lawful : format.Lawful) {count : Nat} {bytes rest : Bytes}
    {values : List α} (read : readMany format count bytes = .ok (values, rest)) :
    values.length = count ∧ (∀ value ∈ values, Fits value) ∧ bytes = values.flatMap format.write ++ rest := by
  induction count generalizing bytes values with
  | zero =>
    cases read
    exact ⟨rfl, nofun, rfl⟩
  | succ count ih =>
    simp only [readMany, bind, Except.bind] at read
    cases front : format.read bytes with
    | error _ => simp [front] at read
    | ok one =>
      cases back : readMany format count one.2 with
      | error _ => simp [front, back] at read
      | ok more =>
        simp only [front, back, pure, Except.pure, Except.ok.injEq, Prod.mk.injEq] at read
        obtain ⟨rfl, rfl⟩ := read
        obtain ⟨fits, frontBytes⟩ := lawful.write_read front
        obtain ⟨counted, all, backBytes⟩ := ih back
        refine ⟨by rw [List.length_cons, counted], ?_, ?_⟩
        · rw [List.forall_mem_cons]
          exact ⟨fits, all⟩
        · rw [frontBytes, backBytes, List.flatMap_cons, List.append_assoc]

theorem lawful_list {format : Format α} (lawful : format.Lawful) : (list format).Lawful where
  read_write values rest small := by
    have counted := lawful_word64.read_write (UInt64.ofNat values.length) (values.flatMap format.write ++ rest) trivial
    have all := readMany_write lawful rest small.2
    simp only [list, size_eq small.1, List.append_assoc, counted, bind, Except.bind,
      UInt64.toNat_ofNat_of_lt' small.1, all]
  write_read {bytes values rest} read := by
    simp only [list, bind, Except.bind] at read ⊢
    cases front : word64.read bytes with
    | error _ => simp [front] at read
    | ok one =>
      simp only [front] at read
      obtain ⟨_, frontBytes⟩ := lawful_word64.write_read front
      obtain ⟨counted, all, backBytes⟩ := write_readMany lawful read
      have small : values.length < 2 ^ 64 := counted ▸ one.1.toNat_lt
      refine ⟨⟨small, all⟩, ?_⟩
      rw [frontBytes, backBytes, size_eq small, counted, UInt64.ofNat_toNat, List.append_assoc]

theorem lawful_text : text.Lawful where
  read_write value rest small := by
    have fits : (Utf8.ofString value).length < 2 ^ 64 := small
    have counted := lawful_word64.read_write (UInt64.ofNat (Utf8.ofString value).length) (Utf8.ofString value ++ rest)
      trivial
    have read : Utf8.decode (Utf8.ofString value) = .ok value.toList := Utf8.decode_ok_iff.mpr rfl
    have enough : ¬ (Utf8.ofString value ++ rest).length < (Utf8.ofString value).length := by simp
    simp only [text, size_eq fits, List.append_assoc, counted, bind, Except.bind, UInt64.toNat_ofNat_of_lt' fits,
      if_neg enough, List.take_left', List.drop_left', read, String.ofList_toList]
  write_read {bytes value rest} read := by
    simp only [text, bind, Except.bind] at read ⊢
    cases front : word64.read bytes with
    | error _ => simp [front] at read
    | ok one =>
      simp only [front] at read
      obtain ⟨_, frontBytes⟩ := lawful_word64.write_read front
      split at read
      · cases read
      · next enough =>
        cases found : Utf8.decode (one.2.take one.1.toNat) with
        | error _ => simp [found] at read
        | ok chars =>
          simp only [found, Except.ok.injEq, Prod.mk.injEq] at read
          obtain ⟨rfl, rfl⟩ := read
          have spelt : one.2.take one.1.toNat = Utf8.ofString (String.ofList chars) := by
            rw [Utf8.ofString, String.toList_ofList]
            exact Utf8.decode_ok_iff.mp found
          have counted : (Utf8.ofString (String.ofList chars)).length = one.1.toNat := by
            rw [← spelt]
            exact List.length_take_of_le (by omega)
          have small : (Utf8.ofString (String.ofList chars)).length < 2 ^ 64 := counted ▸ one.1.toNat_lt
          refine ⟨small, ?_⟩
          rw [size_eq small, counted, UInt64.ofNat_toNat, ← spelt, List.append_assoc, List.take_append_drop]
          exact frontBytes

/-- What a case of a type owes: its own values are read back, and it reads no others. -/
structure Variant.Lawful (variant : Variant α) : Prop where
  read_write : ∀ {value bytes} rest, Fits value → variant.write value = some bytes →
    variant.read (bytes ++ rest) = .ok (value, rest)
  write_read : ∀ {bytes value rest}, variant.read bytes = .ok (value, rest) →
    Fits value ∧ ∃ front, variant.write value = some front ∧ bytes = front ++ rest

theorem lawful_variant {format : Format β} (lawful : format.Lawful) {make : β → α} {content : α → Option β}
    (own : ∀ value part, content value = some part ↔ value = make part)
    (fits : ∀ part, Fits (make part) ↔ Fits part) :
    (variant format make content).Lawful where
  read_write {value bytes} rest small written := by
    obtain ⟨part, found, rfl⟩ := Option.map_eq_some_iff.mp written
    obtain rfl := (own value part).mp found
    simp only [variant, lawful.read_write part rest ((fits part).mp small), Except.map]
  write_read {bytes value rest} read := by
    simp only [variant] at read
    cases found : format.read bytes with
    | error _ => simp [found, Except.map] at read
    | ok pair =>
      obtain ⟨part, left⟩ := pair
      simp only [found, Except.map, Except.ok.injEq, Prod.mk.injEq] at read
      obtain ⟨rfl, rfl⟩ := read
      obtain ⟨small, joined⟩ := lawful.write_read found
      refine ⟨(fits part).mpr small, format.write part, ?_, joined⟩
      simp only [variant, (own _ part).mpr rfl, Option.map_some]

/-- Every value is of exactly one of some cases, which are few enough to be numbered. -/
structure Divided (cases : List (Variant α)) : Prop where
  few : cases.length < 2 ^ 32
  single : ∀ value, cases.countP (fun variant => (variant.write value).isSome) = 1

omit [Measured α] in
private theorem writeVariant_eq {value : α} {cases : List (Variant α)} {variant : Variant α} {index : Nat}
    {bytes : Bytes} (first : Nat) (found : cases[index]? = some variant) (written : variant.write value = some bytes)
    (single : cases.countP (fun variant => (variant.write value).isSome) = 1) :
    writeVariant value first cases = Bytes.littleEndian 4 (first + index) ++ bytes := by
  induction cases generalizing first index with
  | nil => cases found
  | cons head cases ih =>
    cases index with
    | zero =>
      cases found
      simp only [writeVariant, written, Nat.add_zero]
    | succ index =>
      have later : 0 < cases.countP fun variant => (variant.write value).isSome :=
        List.countP_pos_iff.mpr ⟨variant, List.mem_of_getElem? found, by rw [written]; rfl⟩
      rw [List.countP_cons] at single
      have skipped : head.write value = none := by
        cases own : head.write value with
        | none => rfl
        | some _ =>
          simp only [own, Option.isSome_some, if_true] at single
          omega
      have rest : cases.countP (fun variant => (variant.write value).isSome) = 1 := by
        simpa [skipped] using single
      simp only [writeVariant, skipped, ih (first + 1) found rest, Nat.add_assoc, Nat.add_comm 1]

theorem lawful_variants {cases : List (Variant α)} (divided : Divided cases)
    (lawful : ∀ variant ∈ cases, variant.Lawful) : (variants cases).Lawful where
  read_write value rest small := by
    have single := divided.single value
    obtain ⟨variant, member, written⟩ := List.countP_pos_iff.mp (Nat.lt_of_lt_of_eq Nat.one_pos single.symm)
    obtain ⟨bytes, written⟩ := Option.isSome_iff_exists.mp written
    obtain ⟨index, found⟩ := List.mem_iff_getElem?.mp member
    have inside : index < 2 ^ 32 := Nat.lt_trans (List.getElem?_eq_some_iff.mp found).1 divided.few
    have number := UInt32.toNat_ofNat_of_lt' inside
    have tag := lawful_word32.read_write (UInt32.ofNat index) (bytes ++ rest) trivial
    have spelt : word32.write (UInt32.ofNat index) = Bytes.littleEndian 4 index := by simp only [word32, number]
    rw [spelt] at tag
    simp only [variants, writeVariant_eq 0 found written single, Nat.zero_add, List.append_assoc, tag, bind,
      Except.bind, number, found]
    exact (lawful variant member).read_write rest small written
  write_read {bytes value rest} read := by
    simp only [variants, bind, Except.bind] at read ⊢
    cases front : word32.read bytes with
    | error _ => simp [front] at read
    | ok one =>
      simp only [front] at read
      cases found : cases[one.1.toNat]? with
      | none => simp [found] at read
      | some variant =>
        simp only [found] at read
        obtain ⟨_, tagged⟩ := lawful_word32.write_read front
        obtain ⟨small, content, written, joined⟩ := (lawful variant (List.mem_of_getElem? found)).write_read read
        refine ⟨small, ?_⟩
        rw [writeVariant_eq 0 found written (divided.single value), Nat.zero_add, List.append_assoc, ← joined]
        exact tagged

end Format

instance : Measured Endpoint := ⟨fun endpoint => Fits endpoint.text⟩
instance : Measured Address := ⟨fun address => Fits (address.sync, address.async)⟩
instance : Measured Node := ⟨fun node => Fits (node.name, node.primary, node.secondary, node.tertiary)⟩
instance : Measured StoreId := ⟨fun id => Fits id.word⟩
instance : Measured Version := ⟨fun version => Fits (version.store, version.number)⟩
instance : Measured Read := ⟨fun read => Fits (read.key, read.version)⟩
instance : Measured Removal := ⟨fun removal => Fits (removal.key, removal.parents)⟩
instance : Measured Written := ⟨fun written => Fits (written.version, written.conflict)⟩

instance : Measured Write where
  Fits write := Fits (write.key, write.data, write.parents, write.expiresAt, write.optimistic, write.assigned)

instance : Measured Value where
  Fits value := Fits (value.key, value.version, value.data, value.parents, value.timestamp, value.expiresAt, value.hash)

instance : Measured Origin where
  Fits
    | .client destination => Fits destination
    | .peer => True

instance : Measured Call where
  Fits
    | .write origin writes => Fits (origin, writes)
    | .read reads => Fits reads
    | .remove origin removals => Fits (origin, removals)
    | .nodes => True
    | .nodeAt endpoint => Fits endpoint

instance : Measured Fault.Kind := ⟨fun _ => True⟩
instance : Measured Fault := ⟨fun fault => Fits (fault.kind, fault.message)⟩

instance : Measured Answer where
  Fits
    | .written results => Fits results
    | .values found => Fits found
    | .removed flags => Fits flags
    | .nodes nodes => Fits nodes
    | .node node => Fits node
    | .fault fault => Fits fault

instance : Measured Message where
  Fits
    | .writes writes => Fits writes
    | .removals removals => Fits removals

namespace Layout

open Format

theorem lawful_endpoint : endpoint.Lawful :=
  lawful_map lawful_text (fun _ => rfl) (fun _ => rfl) fun _ => Iff.rfl

theorem lawful_address : address.Lawful :=
  lawful_map (lawful_both lawful_endpoint lawful_endpoint) (fun _ => rfl) (fun _ => rfl) fun _ => Iff.rfl

theorem lawful_node : node.Lawful :=
  lawful_map (lawful_both lawful_text (lawful_both lawful_address (lawful_both (lawful_option lawful_address)
    (lawful_option lawful_address)))) (fun _ => rfl) (fun _ => rfl) fun _ => Iff.rfl

theorem lawful_storeId : storeId.Lawful :=
  lawful_map lawful_word128 (fun _ => rfl) (fun _ => rfl) fun _ => Iff.rfl

theorem lawful_version : version.Lawful :=
  lawful_map (lawful_both lawful_storeId lawful_word64) (fun _ => rfl) (fun _ => rfl) fun _ => Iff.rfl

theorem lawful_bytes : bytes.Lawful :=
  lawful_list lawful_byte

theorem lawful_write : write.Lawful :=
  lawful_map (lawful_both lawful_text (lawful_both lawful_bytes (lawful_both
    (lawful_option (lawful_list lawful_version)) (lawful_both (lawful_option lawful_word64) (lawful_both lawful_bool
      (lawful_option lawful_version)))))) (fun _ => rfl) (fun _ => rfl) fun _ => Iff.rfl

theorem lawful_read : read.Lawful :=
  lawful_map (lawful_both lawful_text (lawful_option lawful_version)) (fun _ => rfl) (fun _ => rfl) fun _ => Iff.rfl

theorem lawful_removal : removal.Lawful :=
  lawful_map (lawful_both lawful_text (lawful_option (lawful_list lawful_version))) (fun _ => rfl) (fun _ => rfl)
    fun _ => Iff.rfl

theorem lawful_written : written.Lawful :=
  lawful_map (lawful_both (lawful_option lawful_version) lawful_bool) (fun _ => rfl) (fun _ => rfl) fun _ => Iff.rfl

theorem lawful_value : value.Lawful :=
  lawful_map (lawful_both lawful_text (lawful_both lawful_version (lawful_both lawful_bytes
    (lawful_both (lawful_list lawful_version) (lawful_both lawful_word64 (lawful_both (lawful_option lawful_word64)
      (lawful_block 32))))))) (fun _ => rfl) (fun _ => rfl) fun _ => Iff.rfl

theorem lawful_origin : origin.Lawful := by
  refine lawful_variants ⟨by decide, fun value => ?_⟩ ?_
  · cases value <;> rfl
  · simp only [List.forall_mem_cons, List.not_mem_nil, false_implies, implies_true, and_true]
    refine ⟨lawful_variant lawful_node ?_ fun _ => Iff.rfl, lawful_variant lawful_empty ?_ fun _ => Iff.rfl⟩
    all_goals
      intro value part
      cases value <;> simp [eq_comm]

theorem lawful_call : call.Lawful := by
  refine lawful_variants ⟨by decide, fun value => ?_⟩ ?_
  · cases value <;> rfl
  · simp only [List.forall_mem_cons, List.not_mem_nil, false_implies, implies_true, and_true]
    refine ⟨lawful_variant (lawful_both lawful_origin (lawful_list lawful_write)) ?_ fun _ => Iff.rfl,
      lawful_variant (lawful_list lawful_read) ?_ fun _ => Iff.rfl,
      lawful_variant (lawful_both lawful_origin (lawful_list lawful_removal)) ?_ fun _ => Iff.rfl,
      lawful_variant lawful_empty ?_ fun _ => Iff.rfl, lawful_variant lawful_endpoint ?_ fun _ => Iff.rfl⟩
    all_goals
      intro value part
      cases value <;> simp [eq_comm, Prod.ext_iff]

theorem lawful_faultKind : faultKind.Lawful := by
  refine lawful_variants ⟨by decide, fun value => ?_⟩ ?_
  · cases value <;> rfl
  · simp only [List.forall_mem_cons, List.not_mem_nil, false_implies, implies_true, and_true]
    refine ⟨lawful_variant lawful_empty ?_ fun _ => Iff.rfl, lawful_variant lawful_empty ?_ fun _ => Iff.rfl,
      lawful_variant lawful_empty ?_ fun _ => Iff.rfl, lawful_variant lawful_empty ?_ fun _ => Iff.rfl⟩
    all_goals
      intro value part
      cases value <;> simp [eq_comm]

theorem lawful_fault : fault.Lawful :=
  lawful_map (lawful_both lawful_faultKind lawful_text) (fun _ => rfl) (fun _ => rfl) fun _ => Iff.rfl

theorem lawful_answer : answer.Lawful := by
  refine lawful_variants ⟨by decide, fun value => ?_⟩ ?_
  · cases value <;> rfl
  · simp only [List.forall_mem_cons, List.not_mem_nil, false_implies, implies_true, and_true]
    refine ⟨lawful_variant (lawful_list lawful_written) ?_ fun _ => Iff.rfl,
      lawful_variant (lawful_list (lawful_list lawful_value)) ?_ fun _ => Iff.rfl,
      lawful_variant (lawful_list lawful_bool) ?_ fun _ => Iff.rfl,
      lawful_variant (lawful_list lawful_node) ?_ fun _ => Iff.rfl,
      lawful_variant (lawful_option lawful_node) ?_ fun _ => Iff.rfl, lawful_variant lawful_fault ?_ fun _ => Iff.rfl⟩
    all_goals
      intro value part
      cases value <;> simp [eq_comm]

theorem lawful_message : message.Lawful := by
  refine lawful_variants ⟨by decide, fun value => ?_⟩ ?_
  · cases value <;> rfl
  · simp only [List.forall_mem_cons, List.not_mem_nil, false_implies, implies_true, and_true]
    refine ⟨lawful_variant (lawful_list lawful_write) ?_ fun _ => Iff.rfl,
      lawful_variant (lawful_list lawful_removal) ?_ fun _ => Iff.rfl⟩
    all_goals
      intro value part
      cases value <;> simp [eq_comm]

end Layout

/-- Values and their frames correspond to each other, and where a frame ends is seen from the frame. -/
structure Canonical {α : Type} [Measured α] (format : Format α) : Prop where
  read_back : ∀ value rest, Fits value → decode format (encode format value ++ rest) = .ok value
  written : ∀ frame value, decode format frame = .ok value → Fits value ∧ ∃ rest, frame = encode format value ++ rest
  told_apart : ∀ first second rest tail, Fits first → Fits second →
    encode format first ++ rest = encode format second ++ tail → first = second
  cut_short : ∀ value front back, Fits value → back ≠ [] → encode format value = front ++ back →
    ∃ malformed, decode format front = .error malformed

theorem Format.Lawful.canonical {α : Type} [Measured α] {format : Format α} (lawful : format.Lawful) :
    Canonical format := by
  have read_back (value : α) (rest : Bytes) (small : Fits value) :
      decode format (encode format value ++ rest) = .ok value := by
    simp only [encode, List.cons_append, decode, if_true, lawful.read_write value rest small, Except.map]
  have written (frame : Bytes) (value : α) (read : decode format frame = .ok value) :
      Fits value ∧ ∃ rest, frame = encode format value ++ rest := by
    cases frame with
    | nil => cases read
    | cons version body =>
      simp only [decode] at read
      split at read
      · next current =>
        cases found : format.read body with
        | error _ => simp [found, Except.map] at read
        | ok pair =>
          simp only [found, Except.map, Except.ok.injEq] at read
          subst read
          obtain ⟨small, joined⟩ := lawful.write_read found
          exact ⟨small, pair.2, by rw [joined, current]; rfl⟩
      · cases read
  have told_apart (first second : α) (rest tail : Bytes) (smallFirst : Fits first) (smallSecond : Fits second)
      (same : encode format first ++ rest = encode format second ++ tail) : first = second := by
    have read := read_back first rest smallFirst
    rw [same, read_back second tail smallSecond] at read
    exact (Except.ok.inj read).symm
  refine ⟨read_back, written, told_apart, ?_⟩
  intro value front back small more parted
  cases read : decode format front with
  | error malformed => exact ⟨malformed, rfl⟩
  | ok other =>
    -- the part would begin with a frame of its own, which is as long as the whole
    obtain ⟨fits, rest, joined⟩ := written front other read
    rw [joined, List.append_assoc] at parted
    have same := told_apart value other [] (rest ++ back) small fits (by rw [List.append_nil, parted])
    subst same
    simp [more] at parted

/-- Calls, answers and messages are read back from their frames, and nothing else is read. -/
theorem frames_canonical : Canonical Layout.call ∧ Canonical Layout.answer ∧ Canonical Layout.message :=
  ⟨Layout.lawful_call.canonical, Layout.lawful_answer.canonical, Layout.lawful_message.canonical⟩

private def farewell : Message :=
  .removals [{ key := "zoë", parents := some [{ store := ⟨1⟩, number := 2 }] }]

/-- A removal is read from its frame, also with a byte behind it, but not without the last byte. -/
theorem removal_frame_read :
    decode Layout.message (encode Layout.message farewell ++ [0]) = .ok farewell ∧
      ∃ malformed, decode Layout.message (encode Layout.message farewell).dropLast = .error malformed := by
  have spelt : (Utf8.ofString "zoë").length < 2 ^ 64 := by decide
  have small : Fits farewell := by
    refine ⟨by decide, ?_⟩
    simp only [List.mem_singleton, forall_eq]
    refine ⟨spelt, ?_⟩
    intro parents given
    cases given
    exact ⟨by decide, fun _ _ => ⟨trivial, trivial⟩⟩
  have canonical := frames_canonical.2.2
  refine ⟨canonical.read_back farewell [0] small, ?_⟩
  refine canonical.cut_short farewell _ [(encode Layout.message farewell).getLast (by simp [encode])] small (by simp) ?_
  exact (List.dropLast_concat_getLast _).symm

end ReplicaRing.Wire
