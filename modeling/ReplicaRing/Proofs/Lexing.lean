import Mathlib.Data.List.TakeDrop
import Mathlib.Data.List.TakeWhile
import ReplicaRing.Json.Writer
import ReplicaRing.Proofs.Spelling

/-! What spells a token of JSON. Numbers and strings have a grammar of their own, and the readers cut off the front of a
text just what the grammar allows there, if nothing follows that would be a part of it. A string has a text unless half
of a surrogate pair stands alone in it. -/

namespace ReplicaRing.Json

/-- A text that does not begin with any more of some characters. -/
def Stops (more : Char → Bool) (rest : List Char) : Prop :=
  ∀ char ∈ rest.head?, more char = false

theorem Stops.mono {more fewer : Char → Bool} {rest : List Char} (stops : Stops more rest)
    (among : ∀ char, fewer char = true → more char = true) : Stops fewer rest := by
  intro char first
  have foreign := stops char first
  cases also : fewer char with
  | false => rfl
  | true => rw [among char also] at foreign; exact foreign

namespace Numeral

def Digits (text : List Char) : Prop :=
  text ≠ [] ∧ ∀ char ∈ text, char.isDigit = true

/-- Only zero itself begins with a zero. -/
inductive Whole : List Char → Prop where
  | zero : Whole ['0']
  | digits {first : Char} {more : List Char} (digits : Digits (first :: more)) (significant : first ≠ '0') :
      Whole (first :: more)

inductive Fraction : List Char → Prop where
  | absent : Fraction []
  | present {text : List Char} (digits : Digits text) : Fraction ('.' :: text)

inductive Exponent : List Char → Prop where
  | absent : Exponent []
  | present {mark : Char} {sign text : List Char} (marked : mark = 'e' ∨ mark = 'E')
      (signed : sign = [] ∨ sign = ['+'] ∨ sign = ['-']) (digits : Digits text) : Exponent (mark :: (sign ++ text))

inductive Unsigned : List Char → Prop where
  | parts {first second third : List Char} (whole : Whole first) (fraction : Fraction second)
      (exponent : Exponent third) : Unsigned (first ++ second ++ third)

inductive Spelling : List Char → Prop where
  | positive {text : List Char} (unsigned : Unsigned text) : Spelling text
  | negative {text : List Char} (unsigned : Unsigned text) : Spelling ('-' :: text)

/-- A reader that cuts a part off the front of a text. The part is of a certain kind, and all of that kind are cut off if
what is behind them does not go on. -/
structure Cuts (reader : List Char → Option (List Char × List Char)) (Part : List Char → Prop) (more : Char → Bool) :
    Prop where
  cut : ∀ {part rest}, Part part → Stops more rest → reader (part ++ rest) = some (part, rest)
  sound : ∀ {text part rest}, reader text = some (part, rest) → Part part ∧ text = part ++ rest

def pointed (char : Char) : Bool :=
  char.isDigit || char = '.'

def powered (char : Char) : Bool :=
  char.isDigit || char = 'e' || char = 'E'

/-- What may go on in a number. -/
def continues (char : Char) : Bool :=
  char.isDigit || char = '.' || char = 'e' || char = 'E'

theorem someDigits_cuts : Cuts someDigits Digits Char.isDigit where
  cut := by
    rintro part rest ⟨some, inside⟩ stops
    have split : digits (part ++ rest) = (part, rest) := by
      have front : rest.takeWhile Char.isDigit = [] ∧ rest.dropWhile Char.isDigit = rest := by
        cases rest with
        | nil => exact ⟨rfl, rfl⟩
        | cons char rest =>
          have foreign := stops char rfl
          simp [foreign]
      rw [digits, List.span_eq_takeWhile_dropWhile, List.takeWhile_append_of_pos inside,
        List.dropWhile_append_of_pos inside, front.1, front.2, List.append_nil]
    rw [someDigits, split]
    cases part with
    | nil => exact absurd rfl some
    | cons first more => rfl
  sound := by
    intro text part rest read
    rw [someDigits] at read
    split at read
    · cases read
    · next nonempty =>
      have split := Option.some.inj read
      rw [digits, List.span_eq_takeWhile_dropWhile, Prod.mk.injEq] at split
      obtain ⟨rfl, rfl⟩ := split
      refine ⟨⟨fun empty => nonempty (text.dropWhile Char.isDigit) ?_, ?_⟩, List.takeWhile_append_dropWhile.symm⟩
      · rw [digits, List.span_eq_takeWhile_dropWhile, empty]
      · exact fun char member => List.mem_takeWhile_imp member

theorem whole_cuts : Cuts whole Whole Char.isDigit where
  cut := by
    intro part rest kind stops
    cases kind with
    | zero => rfl
    | @digits first more digits significant =>
      have read := someDigits_cuts.cut digits stops
      rw [List.cons_append] at read ⊢
      rw [whole.eq_def]
      split
      · next same => exact absurd (List.cons.inj same).1 significant
      · exact read
  sound := by
    intro text part rest read
    rw [whole.eq_def] at read
    split at read
    · cases read
      exact ⟨.zero, rfl⟩
    · next other =>
      obtain ⟨found, joined⟩ := someDigits_cuts.sound read
      cases part with
      | nil => exact absurd rfl found.1
      | cons first more => exact ⟨.digits found fun same => other (more ++ rest) (by rw [joined, same]; rfl), joined⟩

theorem fraction_cuts : Cuts fraction Fraction pointed where
  cut := by
    intro part rest kind stops
    cases kind with
    | absent =>
      rw [List.nil_append, fraction.eq_def]
      split
      · exact absurd (stops '.' rfl) (by decide)
      · rfl
    | present digits =>
      have read := someDigits_cuts.cut digits (stops.mono fun char digit => by simp [pointed, digit])
      rw [List.cons_append, fraction, read]
      rfl
  sound := by
    intro text part rest read
    rw [fraction.eq_def] at read
    split at read
    · obtain ⟨⟨found, left⟩, cut, same⟩ := Option.map_eq_some_iff.mp read
      cases same
      obtain ⟨digits, joined⟩ := someDigits_cuts.sound cut
      exact ⟨.present digits, by rw [joined]; rfl⟩
    · cases read
      exact ⟨.absent, rfl⟩

theorem exponentSign_cut {sign text rest : List Char} (signed : sign = [] ∨ sign = ['+'] ∨ sign = ['-'])
    (digits : Digits text) : exponentSign (sign ++ (text ++ rest)) = (sign, text ++ rest) := by
  rcases signed with rfl | rfl | rfl
  · obtain ⟨some, inside⟩ := digits
    cases text with
    | nil => exact absurd rfl some
    | cons first more =>
      have digit := inside first List.mem_cons_self
      rw [List.nil_append, List.cons_append, exponentSign.eq_def]
      split
      · next same => rw [(List.cons.inj same).1] at digit; exact absurd digit (by decide)
      · next same => rw [(List.cons.inj same).1] at digit; exact absurd digit (by decide)
      · rfl
  · rfl
  · rfl

theorem exponentSign_sound (text : List Char) :
    ((exponentSign text).1 = [] ∨ (exponentSign text).1 = ['+'] ∨ (exponentSign text).1 = ['-']) ∧
      text = (exponentSign text).1 ++ (exponentSign text).2 := by
  rw [exponentSign.eq_def]
  split
  · exact ⟨.inr (.inl rfl), rfl⟩
  · exact ⟨.inr (.inr rfl), rfl⟩
  · exact ⟨.inl rfl, rfl⟩

theorem exponent_cuts : Cuts exponent Exponent powered where
  cut := by
    intro part rest kind stops
    cases kind with
    | absent =>
      cases rest with
      | nil => rfl
      | cons char rest =>
        have foreign := stops char rfl
        simp only [powered, Bool.or_eq_false_iff, decide_eq_false_iff_not] at foreign
        rw [List.nil_append, exponent, if_neg (by simp [foreign])]
    | @present mark sign text marked signed digits =>
      have read := someDigits_cuts.cut digits (stops.mono fun char digit => by simp [powered, digit])
      rw [List.cons_append, List.append_assoc, exponent, if_pos (by simp [marked]), exponentSign_cut signed digits]
      simp only [read, Option.map_some]
  sound := by
    intro text part rest read
    cases text with
    | nil =>
      cases read
      exact ⟨.absent, rfl⟩
    | cons char text =>
      rw [exponent] at read
      split at read
      · next marked =>
        have parted := exponentSign_sound text
        generalize exponentSign text = parts at read parted
        obtain ⟨sign, behind⟩ := parts
        obtain ⟨signed, rfl⟩ := parted
        obtain ⟨⟨found, left⟩, cut, same⟩ := Option.map_eq_some_iff.mp read
        cases same
        obtain ⟨digits, joined⟩ := someDigits_cuts.sound cut
        exact ⟨.present (by simpa using marked) signed digits, by rw [joined]; simp⟩
      · cases read
        exact ⟨.absent, rfl⟩

theorem unsigned_cuts : Cuts unsigned Unsigned continues where
  cut := by
    intro part rest kind stops
    cases kind with
    | @parts first second third isWhole isFraction isExponent =>
      have third_stops : Stops powered rest := stops.mono (by simp [powered, continues]; tauto)
      have second_stops : Stops pointed (third ++ rest) := by
        cases isExponent with
        | absent => exact stops.mono (by simp [pointed, continues]; tauto)
        | present marked =>
          intro char first
          cases first
          rcases marked with rfl | rfl <;> decide
      have first_stops : Stops Char.isDigit (second ++ (third ++ rest)) := by
        cases isFraction with
        | absent => exact second_stops.mono (by simp [pointed]; tauto)
        | present =>
          intro char first
          cases first
          decide
      rw [unsigned, List.append_assoc, List.append_assoc, whole_cuts.cut isWhole first_stops]
      simp only [Option.bind_eq_bind, Option.bind_some, fraction_cuts.cut isFraction second_stops,
        exponent_cuts.cut isExponent third_stops, Option.pure_def]
  sound := by
    intro text part rest read
    simp only [unsigned, Option.bind_eq_bind, Option.bind_eq_some_iff, Option.pure_def, Option.some.injEq,
      Prod.mk.injEq] at read
    obtain ⟨⟨first, left⟩, one, ⟨second, more⟩, two, ⟨third, behind⟩, three, rfl, rfl⟩ := read
    obtain ⟨isWhole, rfl⟩ := whole_cuts.sound one
    obtain ⟨isFraction, rfl⟩ := fraction_cuts.sound two
    obtain ⟨isExponent, rfl⟩ := exponent_cuts.sound three
    exact ⟨.parts isWhole isFraction isExponent, by simp⟩

theorem Whole.first {text : List Char} (whole : Whole text) :
    ∃ char more, text = char :: more ∧ char.isDigit = true := by
  cases whole with
  | zero => exact ⟨'0', [], rfl, by decide⟩
  | @digits first more digits _ => exact ⟨first, more, rfl, digits.2 first List.mem_cons_self⟩

theorem Unsigned.first {text : List Char} (unsigned : Unsigned text) :
    ∃ char more, text = char :: more ∧ char.isDigit = true := by
  cases unsigned with
  | parts whole _ _ =>
    obtain ⟨char, more, rfl, digit⟩ := whole.first
    exact ⟨char, _, rfl, digit⟩

theorem Spelling.first {text : List Char} (numeral : Spelling text) :
    ∃ char more, text = char :: more ∧ (char.isDigit = true ∨ char = '-') := by
  cases numeral with
  | positive unsigned =>
    obtain ⟨char, more, same, digit⟩ := unsigned.first
    exact ⟨char, more, same, Or.inl digit⟩
  | negative => exact ⟨'-', _, rfl, Or.inr rfl⟩

theorem read_cuts : Cuts read Spelling continues where
  cut := by
    intro part rest kind stops
    cases kind with
    | positive isUnsigned =>
      obtain ⟨char, more, rfl, digit⟩ := isUnsigned.first
      have cut := unsigned_cuts.cut isUnsigned stops
      rw [List.cons_append] at cut ⊢
      rw [read.eq_def]
      split
      · next same => rw [(List.cons.inj same).1] at digit; exact absurd digit (by decide)
      · exact cut
    | negative isUnsigned =>
      rw [List.cons_append, read, unsigned_cuts.cut isUnsigned stops]
      rfl
  sound := by
    intro text part rest found
    rw [read.eq_def] at found
    split at found
    · obtain ⟨⟨inside, left⟩, cut, same⟩ := Option.map_eq_some_iff.mp found
      cases same
      obtain ⟨isUnsigned, joined⟩ := unsigned_cuts.sound cut
      exact ⟨.negative isUnsigned, by rw [joined]; rfl⟩
    · obtain ⟨isUnsigned, joined⟩ := unsigned_cuts.sound found
      exact ⟨.positive isUnsigned, joined⟩

end Numeral

namespace Piece

/-- What spells one piece of a string. A code that is half of a surrogate pair is no character. -/
inductive Spelling : Piece → List Char → Prop where
  | plain {char : Char} (printable : 0x20 ≤ char.toNat) (unquoted : char ≠ '"') (unescaped : char ≠ '\\') :
      Spelling (.char char) [char]
  | short {letter char : Char} (known : escaped letter = some char) : Spelling (.char char) ['\\', letter]
  | code {a b c d char : Char} (digits : hexCode a b c d = some char.toNat) :
      Spelling (.char char) ['\\', 'u', a, b, c, d]
  | high {a b c d : Char} {offset : Nat} (digits : hexCode a b c d = some (0xD800 + offset)) (small : offset < 0x400) :
      Spelling (.high offset) ['\\', 'u', a, b, c, d]
  | low {a b c d : Char} {offset : Nat} (digits : hexCode a b c d = some (0xDC00 + offset)) (small : offset < 0x400) :
      Spelling (.low offset) ['\\', 'u', a, b, c, d]

inductive Spellings : List Piece → List Char → Prop where
  | nil : Spellings [] []
  | cons {piece : Piece} {pieces : List Piece} {first more : List Char} (spelling : Spelling piece first)
      (rest : Spellings pieces more) : Spellings (piece :: pieces) (first ++ more)

/-- The text of some pieces. The two halves of a pair must stand side by side, the high one first. -/
inductive Tells : List Piece → List Char → Prop where
  | nil : Tells [] []
  | char {char : Char} {pieces : List Piece} {text : List Char} (rest : Tells pieces text) :
      Tells (.char char :: pieces) (char :: text)
  | pair {first second : Nat} {char : Char} {pieces : List Piece} {text : List Char}
      (pairs : char.toNat = 0x10000 + first * 0x400 + second) (rest : Tells pieces text) :
      Tells (.high first :: .low second :: pieces) (char :: text)

end Piece

private theorem hexValue_lt {char : Char} {value : Nat} (found : hexValue char = some value) : value < 16 := by
  have zero : ('0' : Char).toNat = 48 := rfl
  have nine : ('9' : Char).toNat = 57 := rfl
  have lower : ('f' : Char).toNat = 102 := rfl
  have upper : ('F' : Char).toNat = 70 := rfl
  simp only [hexValue, Char.le_def, UInt32.le_iff_toNat_le, Char.toNat_val, Bool.and_eq_true, decide_eq_true_eq] at found
  split at found
  · cases found
    omega
  · split at found
    · cases found
      omega
    · split at found
      · cases found
        omega
      · cases found

theorem hexCode_lt {a b c d : Char} {code : Nat} (found : hexCode a b c d = some code) : code < 0x10000 := by
  simp only [hexCode, Option.bind_eq_bind, Option.bind_eq_some_iff, Option.pure_def, Option.some.injEq] at found
  obtain ⟨first, one, second, two, third, three, fourth, four, rfl⟩ := found
  have := hexValue_lt one
  have := hexValue_lt two
  have := hexValue_lt three
  have := hexValue_lt four
  omega

namespace Piece

theorem ofCode_char (char : Char) : ofCode char.toNat = .char char := by
  have valid : char.toNat.isValidChar := char.valid
  unfold Nat.isValidChar at valid
  rw [ofCode, if_neg, if_neg, Char.ofNat_toNat]
  · simp only [Bool.and_eq_true, decide_eq_true_eq]
    omega
  · simp only [Bool.and_eq_true, decide_eq_true_eq]
    omega

theorem ofCode_high {offset : Nat} (small : offset < 0x400) : ofCode (0xD800 + offset) = .high offset := by
  rw [ofCode, if_pos, Nat.add_sub_cancel_left]
  simp only [Bool.and_eq_true, decide_eq_true_eq]
  omega

theorem ofCode_low {offset : Nat} (small : offset < 0x400) : ofCode (0xDC00 + offset) = .low offset := by
  rw [ofCode, if_neg, if_pos, Nat.add_sub_cancel_left]
  · simp only [Bool.and_eq_true, decide_eq_true_eq]
    omega
  · simp only [Bool.and_eq_true, decide_eq_true_eq]
    omega

theorem spelling_ofCode {a b c d : Char} {code : Nat} (digits : hexCode a b c d = some code) :
    Spelling (ofCode code) ['\\', 'u', a, b, c, d] := by
  have bound := hexCode_lt digits
  by_cases isHigh : 0xD800 ≤ code ∧ code < 0xDC00
  · obtain ⟨offset, rfl⟩ := Nat.exists_eq_add_of_le isHigh.1
    have small : offset < 0x400 := by omega
    rw [ofCode_high small]
    exact .high digits small
  · by_cases isLow : 0xDC00 ≤ code ∧ code < 0xE000
    · obtain ⟨offset, rfl⟩ := Nat.exists_eq_add_of_le isLow.1
      have small : offset < 0x400 := by omega
      rw [ofCode_low small]
      exact .low digits small
    · have valid : code.isValidChar := by
        unfold Nat.isValidChar
        omega
      have same : (Char.ofNat code).toNat = code := Utf8.toNat_ofNat valid
      rw [← same] at digits ⊢
      rw [ofCode_char]
      exact .code digits

theorem pieces_short {letter char : Char} {rest behind : List Char} {inside : List Piece}
    (known : escaped letter = some char) (read : pieces rest = some (inside, behind)) :
    pieces ('\\' :: letter :: rest) = some (.char char :: inside, behind) := by
  rw [pieces.eq_def]
  split
  · next empty => cases empty
  · next same => cases same
  · next same =>
    cases same
    cases known
  · next same =>
    cases same
    simp only [known, read]
    rfl
  · next other same =>
    cases same
    exact (other letter rest rfl rfl).elim

theorem pieces_spelling {piece : Piece} {first rest behind : List Char} {inside : List Piece}
    (spelling : Spelling piece first) (read : pieces rest = some (inside, behind)) :
    pieces (first ++ rest) = some (piece :: inside, behind) := by
  cases spelling with
  | @plain char printable unquoted unescaped =>
    rw [List.cons_append, List.nil_append, pieces.eq_def]
    split
    · next empty => cases empty
    · next same => exact absurd (List.cons.inj same).1 unquoted
    · next same => exact absurd (List.cons.inj same).1 unescaped
    · next same => exact absurd (List.cons.inj same).1 unescaped
    · next same =>
      cases same
      rw [if_neg (by simp [unescaped]; exact printable), read]
      rfl
  | short known => exact pieces_short known read
  | code digits => simp [pieces, digits, ofCode_char, read]
  | high digits small => simp [pieces, digits, ofCode_high small, read]
  | low digits small => simp [pieces, digits, ofCode_low small, read]

theorem pieces_spellings {all : List Piece} {inside : List Char} (spellings : Spellings all inside) (rest : List Char) :
    pieces (inside ++ '"' :: rest) = some (all, rest) := by
  induction spellings with
  | nil => rfl
  | cons spelling _ ih =>
    rw [List.append_assoc]
    exact pieces_spelling spelling ih

private theorem spellings_before {piece : Piece} {others : List Piece} {first tail rest : List Char}
    (spelling : Spelling piece first) (later : ∃ inside, Spellings others inside ∧ tail = inside ++ '"' :: rest) :
    ∃ inside, Spellings (piece :: others) inside ∧ first ++ tail = inside ++ '"' :: rest := by
  obtain ⟨inside, spellings, rfl⟩ := later
  exact ⟨first ++ inside, .cons spelling spellings, (List.append_assoc _ _ _).symm⟩

theorem spellings_of_pieces {text rest : List Char} {all : List Piece} (read : pieces text = some (all, rest)) :
    ∃ inside, Spellings all inside ∧ text = inside ++ '"' :: rest := by
  fun_induction pieces text generalizing all with
  | case1 => cases read
  | case2 =>
    cases read
    exact ⟨[], .nil, rfl⟩
  | case3 a b c d tail ih =>
    obtain ⟨code, digits, ⟨others, behind⟩, later, same⟩ := by
      simpa only [Option.bind_eq_bind, Option.bind_eq_some_iff] using read
    cases same
    exact spellings_before (spelling_ofCode digits) (ih later)
  | case4 letter tail _ ih =>
    obtain ⟨char, known, ⟨others, behind⟩, later, same⟩ := by
      simpa only [Option.bind_eq_bind, Option.bind_eq_some_iff] using read
    cases same
    exact spellings_before (.short known) (ih later)
  | case5 => cases read
  | case6 char tail unquoted _ _ allowed ih =>
    obtain ⟨⟨others, behind⟩, later, same⟩ := by
      simpa only [Option.bind_eq_bind, Option.bind_eq_some_iff] using read
    cases same
    simp only [Bool.or_eq_true, decide_eq_true_eq, not_or, Nat.not_lt] at allowed
    exact spellings_before (.plain allowed.1 unquoted allowed.2) (ih later)

/-- Two halves make a character. -/
private theorem toNat_pair {first second : Nat} (high : first < 0x400) (low : second < 0x400) :
    (Char.ofNat (0x10000 + first * 0x400 + second)).toNat = 0x10000 + first * 0x400 + second := by
  apply Utf8.toNat_ofNat
  unfold Nat.isValidChar
  omega

theorem join_of_tells {all : List Piece} {text : List Char} (tells : Tells all text) : join all = some text := by
  induction tells with
  | nil => rfl
  | char _ ih => rw [join, ih]; rfl
  | pair pairs _ ih => rw [join, ih, ← pairs, Char.ofNat_toNat]; rfl

theorem tells_of_join {all : List Piece} {inside text : List Char} (spellings : Spellings all inside)
    (joined : join all = some text) : Tells all text := by
  fun_induction join all generalizing inside text with
  | case1 =>
    cases joined
    exact .nil
  | case2 c rest ih =>
    obtain ⟨more, later, rfl⟩ := Option.map_eq_some_iff.mp joined
    cases spellings with
    | cons _ spellings => exact .char (ih spellings later)
  | case3 first second rest ih =>
    obtain ⟨more, later, rfl⟩ := Option.map_eq_some_iff.mp joined
    cases spellings with
    | cons one spellings =>
      cases spellings with
      | cons two spellings =>
        cases one with
        | high _ high =>
          cases two with
          | low _ low => exact .pair (toNat_pair high low) (ih spellings later)
  | case4 => cases joined

end Piece

private theorem hexValue_hexDigit : ∀ value < 16, hexValue (Text.hexDigit value) = some value := by
  decide

theorem hexCode_hexDigits {number : Nat} (small : number < 0x10000) :
    ∃ a b c d, Text.hexDigits 4 number = [a, b, c, d] ∧ hexCode a b c d = some number := by
  refine ⟨_, _, _, _, rfl, ?_⟩
  have digit (part : Nat) := hexValue_hexDigit (part % 16) (Nat.mod_lt _ (by decide))
  simp only [hexCode, digit, Option.bind_eq_bind, Option.bind_some, Option.pure_def, Option.some.injEq]
  omega

namespace Piece

theorem spelling_writeChar (char : Char) : Spelling (.char char) (writeChar char) := by
  unfold writeChar
  -- seven characters have a letter of their own
  iterate 7
    split
    · next same =>
      subst same
      exact .short rfl
  split
  · next control =>
    obtain ⟨a, b, c, d, written, code⟩ := hexCode_hexDigits (Nat.lt_trans control (by decide))
    rw [written]
    exact .code code
  · next unquoted unescaped _ _ _ _ _ printable => exact .plain (Nat.not_lt.mp printable) unquoted unescaped

theorem spellings_writeChar (text : List Char) : Spellings (text.map .char) (text.flatMap writeChar) := by
  induction text with
  | nil => exact .nil
  | cons char text ih => exact .cons (spelling_writeChar char) ih

theorem tells_chars (text : List Char) : Tells (text.map .char) text := by
  induction text with
  | nil => exact .nil
  | cons char text ih => exact .char ih

end Piece
end ReplicaRing.Json
