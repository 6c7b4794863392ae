import Mathlib.Data.List.Chain
import ReplicaRing.Proofs.Lexing

/-! A text is a row of tokens with blanks between them where one likes. From the text the tokens come back, if no number
stands right in front of another one, and every text that is scanned at all is such a row. -/

namespace ReplicaRing.Json.Token

/-- What spells one token. -/
inductive Spelling : Token → List Char → Prop where
  | openArray : Spelling .openArray ['[']
  | closeArray : Spelling .closeArray [']']
  | openObject : Spelling .openObject ['\x7b']
  | closeObject : Spelling .closeObject ['\x7d']
  | comma : Spelling .comma [',']
  | colon : Spelling .colon [':']
  | null : Spelling .null ['n', 'u', 'l', 'l']
  | yes : Spelling (.bool true) ['t', 'r', 'u', 'e']
  | no : Spelling (.bool false) ['f', 'a', 'l', 's', 'e']
  | number {spelling : List Char} (numeral : Numeral.Spelling spelling) : Spelling (.number spelling) spelling
  | text {all : List Piece} {inside text : List Char} (spellings : Piece.Spellings all inside)
      (tells : Piece.Tells all text) : Spelling (.string (some text)) ('"' :: (inside ++ ['"']))
  | broken {all : List Piece} {inside : List Char} (spellings : Piece.Spellings all inside)
      (silent : ∀ text, ¬ Piece.Tells all text) : Spelling (.string none) ('"' :: (inside ++ ['"']))

/-- Tokens one after the other, with blanks in front of each and at the end. -/
inductive Spaced : List Token → List Char → Prop where
  | nil : Spaced [] []
  | blank {char : Char} {tokens : List Token} {text : List Char} (space : isSpace char = true)
      (rest : Spaced tokens text) : Spaced tokens (char :: text)
  | cons {token : Token} {tokens : List Token} {chars text : List Char} (spelling : Spelling token chars)
      (rest : Spaced tokens text) : Spaced (token :: tokens) (chars ++ text)

def isNumber : Token → Bool
  | number _ => true
  | _ => false

/-- Two numbers side by side may look like one. -/
def Apart (tokens : List Token) : Prop :=
  tokens.IsChain fun first second => ¬ (first.isNumber ∧ second.isNumber)

theorem next_numeral {spelling : List Char} (numeral : Numeral.Spelling spelling) (rest : List Char) :
    next (spelling ++ rest) =
      (Numeral.read (spelling ++ rest)).map fun (spelling, rest) => (number spelling, rest) := by
  obtain ⟨char, more, rfl, first⟩ := numeral.first
  rw [List.cons_append, next.eq_def]
  split
  case h_11 => rfl
  all_goals
    next same =>
      rw [(List.cons.inj same).1] at first
      exact absurd first (by decide)

/-- The token at the front of a text. A number must not go on in what is behind it. -/
theorem next_spelling {token : Token} {chars rest : List Char} (spelling : Spelling token chars)
    (ends : token.isNumber = true → Stops Numeral.continues rest) : next (chars ++ rest) = some (token, rest) := by
  cases spelling with
  | number numeral =>
    rw [next_numeral numeral, Numeral.read_cuts.cut numeral (ends rfl)]
    rfl
  | text spellings tells =>
    rw [List.cons_append, List.append_assoc, List.singleton_append, next, Piece.pieces_spellings spellings]
    simp only [Option.map_some, Piece.join_of_tells tells]
  | @broken all inside spellings silent =>
    have untold : Piece.join all = none := by
      cases joined : Piece.join all with
      | none => rfl
      | some text => exact absurd (Piece.tells_of_join spellings joined) (silent text)
    rw [List.cons_append, List.append_assoc, List.singleton_append, next, Piece.pieces_spellings spellings]
    simp only [Option.map_some, untold]
  | _ => rfl

theorem spelling_of_next {token : Token} {text rest : List Char} (read : next text = some (token, rest)) :
    ∃ chars, Spelling token chars ∧ text = chars ++ rest := by
  rw [next.eq_def] at read
  split at read
  case h_7 =>
    obtain ⟨⟨all, behind⟩, found, same⟩ := Option.map_eq_some_iff.mp read
    cases same
    obtain ⟨inside, spellings, rfl⟩ := Piece.spellings_of_pieces found
    refine ⟨'"' :: (inside ++ ['"']), ?_, by simp⟩
    cases joined : Piece.join all with
    | some text => exact .text spellings (Piece.tells_of_join spellings joined)
    | none =>
      refine .broken spellings fun text tells => ?_
      cases joined.symm.trans (Piece.join_of_tells tells)
  case h_11 =>
    obtain ⟨⟨spelling, behind⟩, cut, same⟩ := Option.map_eq_some_iff.mp read
    cases same
    obtain ⟨numeral, joined⟩ := Numeral.read_cuts.sound cut
    exact ⟨spelling, .number numeral, joined⟩
  all_goals
    cases read
    exact ⟨_, by constructor, rfl⟩

theorem Spelling.first {token : Token} {chars : List Char} (spelling : Spelling token chars) :
    ∃ char more, chars = char :: more ∧ isSpace char = false ∧
      (token.isNumber = false → Numeral.continues char = false) := by
  cases spelling with
  | number numeral =>
    obtain ⟨char, more, same, first⟩ := numeral.first
    refine ⟨char, more, same, ?_, nofun⟩
    cases space : isSpace char with
    | false => rfl
    | true =>
      simp only [isSpace, Bool.or_eq_true, decide_eq_true_eq] at space
      rcases space with ((rfl | rfl) | rfl) | rfl <;> exact absurd first (by decide)
  | _ => exact ⟨_, _, rfl, by decide, fun _ => by decide⟩

section Rows

variable {tokens : List Token} {text : List Char}

theorem Apart.cons {token : Token} (plain : token.isNumber = false) (apart : Apart tokens) :
    Apart (token :: tokens) := by
  refine List.isChain_cons.mpr ⟨fun other _ => ?_, apart⟩
  simp [plain]

theorem Spaced.stops (spaced : Spaced tokens text) (plain : ∀ token ∈ tokens.head?, token.isNumber = false)
    {behind : List Char} (ends : tokens = [] → Stops Numeral.continues behind) :
    Stops Numeral.continues (text ++ behind) := by
  cases spaced with
  | nil => exact ends rfl
  | blank space _ =>
    intro char first
    cases first
    simp only [isSpace, Bool.or_eq_true, decide_eq_true_eq] at space
    rcases space with ((rfl | rfl) | rfl) | rfl <;> decide
  | cons spelling _ =>
    obtain ⟨char, more, rfl, _, foreign⟩ := spelling.first
    intro other first
    cases first
    exact foreign (plain _ rfl)

theorem Spaced.blank_of_nil (spaced : Spaced [] text) : ∀ char ∈ text, isSpace char = true := by
  induction text with
  | nil => nofun
  | cons char text ih =>
    cases spaced with
    | blank space rest => exact List.forall_mem_cons.mpr ⟨space, ih rest⟩

theorem Spaced.begins {token : Token} (spaced : Spaced (token :: tokens) text) (behind : List Char) :
    ∃ char chars more, Spelling token (char :: chars) ∧ (text ++ behind).dropWhile isSpace = char :: more := by
  generalize row : token :: tokens = all at spaced
  induction spaced with
  | nil => cases row
  | blank space _ ih =>
    obtain ⟨char, chars, more, spelling, dropped⟩ := ih row
    refine ⟨char, chars, more, spelling, ?_⟩
    rw [List.cons_append, List.dropWhile_cons_of_pos space, dropped]
  | cons spelling _ _ =>
    cases row
    obtain ⟨char, chars, rfl, solid, _⟩ := spelling.first
    exact ⟨char, chars, _, spelling, List.dropWhile_cons_of_neg (by simp [solid])⟩

/-- The tokens of a row come back, and then those of what is behind it. -/
theorem scanWithin_spaced (spaced : Spaced tokens text) (apart : Apart tokens) {behind : List Char}
    (ends : ∀ token ∈ tokens.getLast?, token.isNumber = true → Stops Numeral.continues behind) {steps : Nat}
    (enough : (text ++ behind).length ≤ steps) :
    ∃ left, behind.length ≤ left ∧
      scanWithin steps (text ++ behind) = (scanWithin left behind).map (tokens ++ ·) := by
  induction spaced generalizing steps with
  | nil => exact ⟨steps, enough, by simp⟩
  | blank space _ ih =>
    cases steps with
    | zero => cases enough
    | succ steps =>
      obtain ⟨left, long, scanned⟩ := ih apart ends (Nat.le_of_succ_le_succ enough)
      refine ⟨left, long, ?_⟩
      rw [List.cons_append, scanWithin, if_pos space, scanned]
  | @cons token tokens chars text spelling spaced ih =>
    obtain ⟨alone, apart⟩ := List.isChain_cons.mp apart
    have stops : token.isNumber = true → Stops Numeral.continues (text ++ behind) := by
      intro number
      refine spaced.stops (fun other follows => ?_) fun empty => ?_
      · simpa [number] using alone other follows
      · subst empty
        exact ends token rfl number
    have read := next_spelling spelling stops
    obtain ⟨char, more, rfl, solid, _⟩ := spelling.first
    cases steps with
    | zero => cases enough
    | succ steps =>
      have shorter : (text ++ behind).length ≤ steps := by
        simp only [List.cons_append, List.length_cons, List.length_append] at enough ⊢
        omega
      have later : ∀ other ∈ tokens.getLast?, other.isNumber = true → Stops Numeral.continues behind :=
        fun other last => ends other (List.mem_getLast?_cons last)
      obtain ⟨left, long, scanned⟩ := ih apart later shorter
      refine ⟨left, long, ?_⟩
      rw [List.append_assoc]
      rw [List.cons_append] at read ⊢
      rw [scanWithin, if_neg (by simp [solid]), read]
      simp only [scanned, Option.map_map]
      rfl

theorem spaced_of_scanWithin {steps : Nat} (scanned : scanWithin steps text = some tokens) : Spaced tokens text := by
  induction steps generalizing text tokens with
  | zero =>
    cases text with
    | nil =>
      cases scanned
      exact .nil
    | cons => cases scanned
  | succ steps ih =>
    cases text with
    | nil =>
      cases scanned
      exact .nil
    | cons char rest =>
      rw [scanWithin] at scanned
      split at scanned
      · next space => exact .blank space (ih scanned)
      · split at scanned
        · cases scanned
        · next token behind read =>
          obtain ⟨others, later, rfl⟩ := Option.map_eq_some_iff.mp scanned
          obtain ⟨chars, spelling, joined⟩ := spelling_of_next read
          rw [joined]
          exact .cons spelling (ih later)

theorem spaced_of_scan (scanned : scan text = some tokens) : Spaced tokens text :=
  spaced_of_scanWithin scanned

end Rows

theorem spelling_write {token : Token} (sound : ∀ spelling, token = .number spelling → Numeral.Spelling spelling) :
    Spelling token token.write := by
  cases token with
  | number spelling => exact .number (sound spelling rfl)
  | bool value => cases value <;> constructor
  | string text =>
    cases text with
    | some text => exact .text (Piece.spellings_writeChar text) (Piece.tells_chars text)
    | none =>
      have half : Piece.Spelling (.high 0) ['\\', 'u', 'd', '8', '0', '0'] := .high (by decide) (by decide)
      exact .broken (.cons half .nil) nofun
  | _ => constructor

theorem spaced_write {row : List Token} (sound : ∀ spelling, .number spelling ∈ row → Numeral.Spelling spelling) :
    Spaced row (row.flatMap write) := by
  induction row with
  | nil => exact .nil
  | cons token row ih =>
    have first : Spelling token token.write :=
      spelling_write fun spelling same => sound spelling (same ▸ List.mem_cons_self)
    exact .cons first (ih fun spelling later => sound spelling (List.mem_cons_of_mem _ later))

end ReplicaRing.Json.Token
