import ReplicaRing.Text.Utf8

/-! Text and its bytes undo each other. What is read is the one spelling that would have been written, since
a longer spelling of a character is refused and so is everything that spells none. -/

namespace ReplicaRing.Utf8

def Tail (byte : UInt8) : Prop :=
  128 ≤ byte.toNat ∧ byte.toNat ≤ 191

/-- The bytes that spell one character, and the character's number. -/
inductive Spells : Bytes → Nat → Prop where
  | one {lead : UInt8} {number : Nat} (low : lead.toNat ≤ 127) (counts : number = lead.toNat) : Spells [lead] number
  | two {lead second : UInt8} {number : Nat} (opens : 194 ≤ lead.toNat ∧ lead.toNat ≤ 223) (tail : Tail second)
      (counts : number = (lead.toNat - 192) * 64 + (second.toNat - 128)) : Spells [lead, second] number
  | three {lead second third : UInt8} {number : Nat} (opens : 224 ≤ lead.toNat ∧ lead.toNat ≤ 239) (tail : Tail second)
      (shortest : lead.toNat = 224 → 160 ≤ second.toNat) (scalar : lead.toNat = 237 → second.toNat ≤ 159)
      (last : Tail third)
      (counts : number = (lead.toNat - 224) * 4096 + (second.toNat - 128) * 64 + (third.toNat - 128)) :
      Spells [lead, second, third] number
  | four {lead second third fourth : UInt8} {number : Nat} (opens : 240 ≤ lead.toNat ∧ lead.toNat ≤ 244)
      (tail : Tail second) (shortest : lead.toNat = 240 → 144 ≤ second.toNat)
      (scalar : lead.toNat = 244 → second.toNat ≤ 143) (next : Tail third) (last : Tail fourth)
      (counts : number = (lead.toNat - 240) * 262144 + (second.toNat - 128) * 4096 + (third.toNat - 128) * 64 +
        (fourth.toNat - 128)) :
      Spells [lead, second, third, fourth] number

theorem within_iff {low high byte : UInt8} :
    within low high byte = true ↔ low.toNat ≤ byte.toNat ∧ byte.toNat ≤ high.toNat := by
  simp [within, UInt8.le_iff_toNat_le]

theorem isTail_iff {byte : UInt8} : isTail byte = true ↔ Tail byte :=
  within_iff

theorem secondOfThree_iff {lead second : UInt8} :
    within (secondOfThree lead).1 (secondOfThree lead).2 second = true ↔
      Tail second ∧ (lead.toNat = 224 → 160 ≤ second.toNat) ∧ (lead.toNat = 237 → second.toNat ≤ 159) := by
  simp only [within_iff, secondOfThree, Tail, ← UInt8.toNat_inj, apply_ite UInt8.toNat, UInt8.reduceToNat]
  split <;> split <;> omega

theorem secondOfFour_iff {lead second : UInt8} :
    within (secondOfFour lead).1 (secondOfFour lead).2 second = true ↔
      Tail second ∧ (lead.toNat = 240 → 144 ≤ second.toNat) ∧ (lead.toNat = 244 → second.toNat ≤ 143) := by
  simp only [within_iff, secondOfFour, Tail, ← UInt8.toNat_inj, apply_ite UInt8.toNat, UInt8.reduceToNat]
  split <;> split <;> omega

theorem toNat_ofNat {number : Nat} (valid : number.isValidChar) : (Char.ofNat number).toNat = number := by
  rw [Char.ofNat, dif_pos valid]
  rfl

namespace Spells

variable {bytes : Bytes} {number : Nat}

theorem valid (spells : Spells bytes number) : number.isValidChar := by
  unfold Nat.isValidChar
  cases spells with
  | one => omega
  | two =>
    simp only [Tail] at *
    omega
  | three =>
    simp only [Tail] at *
    omega
  | four =>
    simp only [Tail] at *
    omega

/-- A character has no other spelling. -/
theorem encodeChar (spells : Spells bytes number) : String.utf8EncodeChar (Char.ofNat number) = bytes := by
  have same : (Char.ofNat number).val.toNat = number := toNat_ofNat spells.valid
  simp only [String.utf8EncodeChar, same]
  cases spells with
  | one low counts =>
    rw [if_pos (by omega), counts, UInt8.ofNat_toNat]
  | two =>
    simp only [Tail] at *
    rw [if_neg (by omega), if_pos (by omega)]
    simp only [List.cons.injEq, ← UInt8.toNat_inj, UInt8.toNat_ofNat', and_true]
    omega
  | three =>
    simp only [Tail] at *
    rw [if_neg (by omega), if_neg (by omega), if_pos (by omega)]
    simp only [List.cons.injEq, ← UInt8.toNat_inj, UInt8.toNat_ofNat', and_true]
    omega
  | four =>
    simp only [Tail] at *
    rw [if_neg (by omega), if_neg (by omega), if_neg (by omega)]
    simp only [List.cons.injEq, ← UInt8.toNat_inj, UInt8.toNat_ofNat', and_true]
    omega

theorem decodes (spells : Spells bytes number) (index : Nat) (rest : Bytes) :
    decodeFrom index (bytes ++ rest) =
      (decodeFrom (index + bytes.length) rest).map (Char.ofNat number :: ·) := by
  have above {lead : UInt8} (high : 128 ≤ lead.toNat) : ¬ lead < 0x80 := by
    rw [UInt8.lt_iff_toNat_lt]
    exact Nat.not_lt.mpr high
  have past {low high lead : UInt8} (greater : high.toNat < lead.toNat) : within low high lead = false := by
    rw [Bool.eq_false_iff, ne_eq, within_iff]
    omega
  rw [decodeFrom.eq_def]
  cases spells with
  | @one lead _ low counts =>
    have ascii : lead < 0x80 := UInt8.lt_iff_toNat_lt.mpr (Nat.lt_succ_of_le low)
    simp only [List.cons_append, List.nil_append, ascii, if_true, counts]
    rfl
  | @two lead second _ opens tail counts =>
    have lead_above := above (show 128 ≤ lead.toNat by omega)
    have lead_two : within 0xC2 0xDF lead = true := within_iff.mpr opens
    simp only [List.cons_append, List.nil_append, lead_above, if_false, lead_two, isTail_iff.mpr tail, if_true, counts]
    rfl
  | @three lead second third _ opens tail shortest scalar last counts =>
    have lead_above := above (show 128 ≤ lead.toNat by omega)
    have past_two : within 0xC2 0xDF lead = false := past (Nat.lt_of_lt_of_le (by decide) opens.1)
    have lead_three : within 0xE0 0xEF lead = true := within_iff.mpr opens
    simp only [List.cons_append, List.nil_append, lead_above, if_false, past_two, Bool.false_eq_true, lead_three,
      secondOfThree_iff.mpr ⟨tail, shortest, scalar⟩, isTail_iff.mpr last, if_true, counts]
    rfl
  | @four lead second third fourth _ opens tail shortest scalar next last counts =>
    have lead_above := above (show 128 ≤ lead.toNat by omega)
    have past_two : within 0xC2 0xDF lead = false := past (Nat.lt_of_lt_of_le (by decide) opens.1)
    have past_three : within 0xE0 0xEF lead = false := past (Nat.lt_of_lt_of_le (by decide) opens.1)
    have lead_four : within 0xF0 0xF4 lead = true := within_iff.mpr opens
    simp only [List.cons_append, List.nil_append, lead_above, if_false, past_two, past_three, Bool.false_eq_true,
      lead_four, secondOfFour_iff.mpr ⟨tail, shortest, scalar⟩, isTail_iff.mpr next, isTail_iff.mpr last, if_true,
      counts]
    rfl

end Spells

theorem spells_encodeChar (char : Char) : Spells (String.utf8EncodeChar char) char.toNat := by
  have valid : char.toNat.isValidChar := char.valid
  unfold Nat.isValidChar at valid
  simp only [String.utf8EncodeChar, Char.toNat_val]
  split
  · refine .one ?_ ?_ <;> simp only [UInt8.toNat_ofNat'] <;> omega
  · split
    · refine .two ?_ ?_ ?_ <;> simp only [Tail, UInt8.toNat_ofNat'] <;> omega
    · split
      · refine .three ?_ ?_ ?_ ?_ ?_ ?_ <;> simp only [Tail, UInt8.toNat_ofNat'] <;> omega
      · refine .four ?_ ?_ ?_ ?_ ?_ ?_ ?_ <;> simp only [Tail, UInt8.toNat_ofNat'] <;> omega

theorem decodeFrom_encode (index : Nat) (text : List Char) : decodeFrom index (encode text) = .ok text := by
  induction text generalizing index with
  | nil => rfl
  | cons char text ih =>
    have spelt := (spells_encodeChar char).decodes index (encode text)
    rw [ih, Char.ofNat_toNat] at spelt
    exact spelt

private theorem continued {front rest : Bytes} {number index : Nat} {text : List Char} (spells : Spells front number)
    (later : ∀ {more}, decodeFrom index rest = .ok more → rest = encode more)
    (read : (decodeFrom index rest).map (Char.ofNat number :: ·) = .ok text) : front ++ rest = encode text := by
  cases found : decodeFrom index rest with
  | error _ =>
    rw [found] at read
    cases read
  | ok more =>
    rw [found] at read
    cases read
    rw [later found]
    simp only [encode, List.flatMap_cons, spells.encodeChar]

/-- What is read as text was written as that text. -/
theorem eq_encode_of_decodeFrom {index : Nat} {bytes : Bytes} {text : List Char}
    (read : decodeFrom index bytes = .ok text) : bytes = encode text := by
  fun_induction decodeFrom index bytes generalizing text
  case case1 =>
    cases read
    rfl
  case case2 index lead rest ascii ih =>
    exact continued (.one (Nat.le_of_lt_succ (UInt8.lt_iff_toNat_lt.mp ascii)) rfl) ih read
  case case4 index lead _ opens second rest tail ih =>
    exact continued (.two (within_iff.mp opens) (isTail_iff.mp tail) rfl) ih read
  case case8 index lead _ _ opens second continues third rest last ih =>
    obtain ⟨tail, shortest, scalar⟩ := secondOfThree_iff.mp continues
    exact continued (.three (within_iff.mp opens) tail shortest scalar (isTail_iff.mp last) rfl) ih read
  case case14 index lead _ _ _ opens second continues third next fourth rest last ih =>
    obtain ⟨tail, shortest, scalar⟩ := secondOfFour_iff.mp continues
    exact continued (.four (within_iff.mp opens) tail shortest scalar (isTail_iff.mp next) (isTail_iff.mp last) rfl)
      ih read
  all_goals cases read

/-- Bytes are read as a text if and only if they are what is written for it. -/
theorem decode_ok_iff {bytes : Bytes} {text : List Char} : decode bytes = .ok text ↔ bytes = encode text := by
  constructor
  · exact eq_encode_of_decodeFrom
  · rintro rfl
    exact decodeFrom_encode 0 text

end ReplicaRing.Utf8
