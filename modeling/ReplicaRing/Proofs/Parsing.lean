import ReplicaRing.Json.Tree
import ReplicaRing.Proofs.Scanning

/-! A tree has one row of tokens, and the tree is what is read from it, whatever stands behind. So a text is read as a
tree if and only if it spells the tree, and nothing but blanks may follow what it spells. -/

namespace ReplicaRing.Json

/-- The texts of a tree: its tokens, each spelled in one of its ways, with blanks where one likes. -/
def Spelling (value : Json) (text : List Char) : Prop :=
  Token.Spaced (tokens value) text

/-- What is behind a value does not begin with a number. -/
def Closed (rest : List Token) : Prop :=
  Token.Apart rest ∧ ∀ token ∈ rest.head?, token.isNumber = false

theorem Closed.plain {token : Token} {rest : List Token} (closed : Token.Apart rest) (plain : token.isNumber = false) :
    Closed (token :: rest) :=
  ⟨closed.cons plain, fun other first => by cases first; exact plain⟩

mutual

theorem apart_tokens (value : Json) {rest : List Token} (closed : Closed rest) : Token.Apart (tokens value ++ rest) :=
  match value with
  | null => closed.1.cons rfl
  | bool _ => closed.1.cons rfl
  | number spelling => List.isChain_cons.mpr ⟨fun other first => by simp [closed.2 other first], closed.1⟩
  | string _ => closed.1.cons rfl
  | array items => by
    rw [tokens, List.cons_append, List.append_assoc]
    exact (apart_itemTokens items (.plain closed.1 rfl)).cons rfl
  | object members => by
    rw [tokens, List.cons_append, List.append_assoc]
    exact (apart_memberTokens members (.plain closed.1 rfl)).cons rfl

theorem apart_itemTokens (items : List Json) {rest : List Token} (closed : Closed rest) :
    Token.Apart (itemTokens items ++ rest) :=
  match items with
  | [] => closed.1
  | [item] => apart_tokens item closed
  | item :: next :: more => by
    rw [itemTokens, List.append_assoc]
    exact apart_tokens item (.plain (apart_itemTokens (next :: more) closed) rfl)

theorem apart_memberTokens (members : List (Option (List Char) × Json)) {rest : List Token} (closed : Closed rest) :
    Token.Apart (memberTokens members ++ rest) :=
  match members with
  | [] => closed.1
  | [(_, value)] => ((apart_tokens value closed).cons rfl).cons rfl
  | (_, value) :: next :: more => by
    rw [memberTokens, List.cons_append, List.cons_append, List.append_assoc]
    exact ((apart_tokens value (.plain (apart_memberTokens (next :: more) closed) rfl)).cons rfl).cons rfl

end

theorem tokens_first (value : Json) : ∃ first more, tokens value = first :: more ∧ first ≠ .closeArray := by
  cases value <;> exact ⟨_, _, rfl, nofun⟩

theorem itemTokens_first {items : List Json} (inhabited : items ≠ []) :
    ∃ first more, itemTokens items = first :: more ∧ first ≠ .closeArray := by
  match items with
  | [item] => exact tokens_first item
  | item :: next :: more =>
    obtain ⟨first, behind, same, opens⟩ := tokens_first item
    exact ⟨first, _, by rw [itemTokens, same, List.cons_append], opens⟩

theorem valueWithin_array (steps : Nat) {first : Token} (rest : List Token) (opens : first ≠ .closeArray) :
    valueWithin (steps + 1) (.openArray :: first :: rest) =
      (itemsWithin steps (first :: rest)).map fun (items, rest) => (array items, rest) := by
  cases first with
  | closeArray => exact absurd rfl opens
  | _ => rfl

theorem memberTokens_first {members : List (Option (List Char) × Json)} (inhabited : members ≠ []) :
    ∃ key more, memberTokens members = .string key :: more := by
  match members with
  | [(key, _)] => exact ⟨key, _, rfl⟩
  | (key, _) :: _ :: _ => exact ⟨key, _, rfl⟩

theorem valueWithin_object (steps : Nat) (key : Option (List Char)) (rest : List Token) :
    valueWithin (steps + 1) (.openObject :: .string key :: rest) =
      (membersWithin steps (.string key :: rest)).map fun (members, rest) => (object members, rest) :=
  rfl

mutual

/-- A tree is read from the front of a row, if there are at least as many steps as the tree has tokens. -/
theorem valueWithin_tokens (value : Json) {steps : Nat} (enough : (tokens value).length ≤ steps) (rest : List Token) :
    valueWithin steps (tokens value ++ rest) = some (value, rest) :=
  match steps, value with
  | 0, value => by
    obtain ⟨first, more, same, _⟩ := tokens_first value
    rw [same] at enough
    cases enough
  | steps + 1, null => rfl
  | steps + 1, bool _ => rfl
  | steps + 1, number _ => rfl
  | steps + 1, string _ => rfl
  | steps + 1, array [] => rfl
  | steps + 1, array (item :: items) => by
    have inside : (itemTokens (item :: items)).length < steps := by
      simp only [tokens, List.length_cons, List.length_append] at enough
      omega
    have read := itemsWithin_tokens (item :: items) nofun inside rest
    obtain ⟨first, more, same, opens⟩ := itemTokens_first (List.cons_ne_nil item items)
    rw [tokens, List.cons_append, List.append_assoc, same, List.cons_append, valueWithin_array steps _ opens]
    rw [same, List.cons_append] at read
    rw [List.singleton_append, read]
    rfl
  | steps + 1, object [] => rfl
  | steps + 1, object (member :: members) => by
    have inside : (memberTokens (member :: members)).length < steps := by
      simp only [tokens, List.length_cons, List.length_append] at enough
      omega
    have read := membersWithin_tokens (member :: members) nofun inside rest
    obtain ⟨key, more, same⟩ := memberTokens_first (List.cons_ne_nil member members)
    rw [tokens, List.cons_append, List.append_assoc, same, List.cons_append, valueWithin_object]
    rw [same, List.cons_append] at read
    rw [List.singleton_append, read]
    rfl

theorem itemsWithin_tokens (items : List Json) (inhabited : items ≠ []) {steps : Nat}
    (enough : (itemTokens items).length < steps) (rest : List Token) :
    itemsWithin steps (itemTokens items ++ .closeArray :: rest) = some (items, rest) :=
  match steps, items with
  | _, [] => absurd rfl inhabited
  | steps + 1, [item] => by
    rw [itemTokens] at enough ⊢
    rw [itemsWithin, valueWithin_tokens item (Nat.le_of_lt_succ enough)]
  | steps + 1, item :: next :: more => by
    simp only [itemTokens, List.length_append, List.length_cons] at enough
    rw [itemTokens, List.append_assoc, List.cons_append, itemsWithin, valueWithin_tokens item (by omega)]
    simp only [itemsWithin_tokens (next :: more) nofun (show _ < steps by omega) rest, Option.map_some]

theorem membersWithin_tokens (members : List (Option (List Char) × Json)) (inhabited : members ≠ []) {steps : Nat}
    (enough : (memberTokens members).length < steps) (rest : List Token) :
    membersWithin steps (memberTokens members ++ .closeObject :: rest) = some (members, rest) :=
  match steps, members with
  | _, [] => absurd rfl inhabited
  | steps + 1, [(key, value)] => by
    simp only [memberTokens, List.length_cons] at enough
    rw [memberTokens, List.cons_append, List.cons_append, membersWithin, valueWithin_tokens value (by omega)]
  | steps + 1, (key, value) :: next :: more => by
    simp only [memberTokens, List.length_append, List.length_cons] at enough
    rw [memberTokens, List.cons_append, List.cons_append, List.append_assoc, List.cons_append, membersWithin,
      valueWithin_tokens value (by omega)]
    simp only [membersWithin_tokens (next :: more) nofun (show _ < steps by omega) rest, Option.map_some]

end

theorem itemTokens_cons (item : Json) {items : List Json} (inhabited : items ≠ []) :
    itemTokens (item :: items) = tokens item ++ .comma :: itemTokens items := by
  cases items with
  | nil => exact absurd rfl inhabited
  | cons => rfl

theorem mem_itemTokens {token : Token} {items : List Json} (listed : token ∈ itemTokens items) :
    token = .comma ∨ ∃ item ∈ items, token ∈ tokens item := by
  induction items with
  | nil => cases listed
  | cons item items ih =>
    rcases eq_or_ne items [] with rfl | inhabited
    · exact Or.inr ⟨item, List.mem_cons_self, listed⟩
    · rw [itemTokens_cons item inhabited] at listed
      rcases List.mem_append.mp listed with here | behind
      · exact Or.inr ⟨item, List.mem_cons_self, here⟩
      · rcases List.mem_cons.mp behind with comma | later
        · exact Or.inl comma
        · exact (ih later).imp_right fun ⟨other, among, has⟩ => ⟨other, List.mem_cons_of_mem _ among, has⟩

theorem memberTokens_cons (key : Option (List Char)) (value : Json) {members : List (Option (List Char) × Json)}
    (inhabited : members ≠ []) :
    memberTokens ((key, value) :: members) =
      .string key :: .colon :: (tokens value ++ .comma :: memberTokens members) := by
  cases members with
  | nil => exact absurd rfl inhabited
  | cons => rfl

/-- With so many steps nothing is read but the tokens of a tree. -/
structure Faithful (steps : Nat) : Prop where
  value : ∀ {row value rest}, valueWithin steps row = some (value, rest) → row = tokens value ++ rest
  items : ∀ {row items rest}, itemsWithin steps row = some (items, rest) →
    items ≠ [] ∧ row = itemTokens items ++ .closeArray :: rest
  members : ∀ {row members rest}, membersWithin steps row = some (members, rest) →
    members ≠ [] ∧ row = memberTokens members ++ .closeObject :: rest

namespace Faithful

variable {steps : Nat} {row rest : List Token}

theorem valueWithin_succ (faithful : Faithful steps) {value : Json}
    (read : valueWithin (steps + 1) row = some (value, rest)) : row = tokens value ++ rest := by
  rw [valueWithin.eq_def] at read
  split at read
  case h_1 impossible => cases impossible
  case h_7 same =>
    cases same
    obtain ⟨⟨items, behind⟩, inside, same⟩ := Option.map_eq_some_iff.mp read
    cases same
    obtain ⟨_, rfl⟩ := faithful.items inside
    simp [tokens]
  case h_9 same =>
    cases same
    obtain ⟨⟨members, behind⟩, inside, same⟩ := Option.map_eq_some_iff.mp read
    cases same
    obtain ⟨_, rfl⟩ := faithful.members inside
    simp [tokens]
  case h_10 => cases read
  all_goals
    cases read
    rfl

theorem itemsWithin_succ (faithful : Faithful steps) {items : List Json}
    (read : itemsWithin (steps + 1) row = some (items, rest)) :
    items ≠ [] ∧ row = itemTokens items ++ .closeArray :: rest := by
  rw [itemsWithin] at read
  split at read
  · next item behind first =>
    cases read
    exact ⟨nofun, faithful.value first⟩
  · next item behind first =>
    obtain ⟨⟨more, after⟩, later, same⟩ := Option.map_eq_some_iff.mp read
    cases same
    obtain ⟨inhabited, rfl⟩ := faithful.items later
    refine ⟨nofun, ?_⟩
    rw [faithful.value first, itemTokens_cons item inhabited, List.append_assoc, List.cons_append]
  · cases read

theorem membersWithin_succ (faithful : Faithful steps) {members : List (Option (List Char) × Json)}
    (read : membersWithin (steps + 1) row = some (members, rest)) :
    members ≠ [] ∧ row = memberTokens members ++ .closeObject :: rest := by
  rw [membersWithin.eq_def] at read
  split at read
  · next same =>
    cases same
    split at read
    · next value behind first =>
      cases read
      refine ⟨nofun, ?_⟩
      rw [faithful.value first]
      rfl
    · next value behind first =>
      obtain ⟨⟨more, after⟩, later, same⟩ := Option.map_eq_some_iff.mp read
      cases same
      obtain ⟨inhabited, rfl⟩ := faithful.members later
      refine ⟨nofun, ?_⟩
      rw [faithful.value first, memberTokens_cons _ value inhabited]
      simp
    · cases read
  · cases read

end Faithful

theorem faithful (steps : Nat) : Faithful steps := by
  induction steps with
  | zero => exact ⟨nofun, nofun, nofun⟩
  | succ steps ih => exact ⟨ih.valueWithin_succ, ih.itemsWithin_succ, ih.membersWithin_succ⟩

theorem ofTokens?_eq_some_iff {row : List Token} {value : Json} :
    ofTokens? row = some value ↔ row = tokens value := by
  constructor
  · intro read
    rw [ofTokens?] at read
    split at read
    · next found =>
      cases read
      rw [(faithful _).value found, List.append_nil]
    · cases read
  · rintro rfl
    have read := valueWithin_tokens value (Nat.le_refl _) []
    rw [List.append_nil] at read
    rw [ofTokens?, read]

/-- The scan of a spelled tree goes on behind it, unless a number could go on there. -/
theorem scan_spelling {value : Json} {front behind : List Char} (spelling : value.Spelling front)
    (ends : ∀ token ∈ (tokens value).getLast?, token.isNumber = true → Stops Numeral.continues behind) :
    ∃ left, Token.scan (front ++ behind) = (Token.scanWithin left behind).map (tokens value ++ ·) := by
  have apart := apart_tokens value (show Closed [] from ⟨List.isChain_nil, nofun⟩)
  rw [List.append_nil] at apart
  obtain ⟨left, _, scanned⟩ := Token.scanWithin_spaced spelling apart ends (Nat.le_refl _)
  exact ⟨left, scanned⟩

/-- A text is read as the tree that it spells, and as nothing else. -/
theorem read_eq_some_iff {text : List Char} {value : Json} : Json.read text = some value ↔ value.Spelling text := by
  rw [Json.read, Option.bind_eq_some_iff]
  constructor
  · rintro ⟨row, scanned, parsed⟩
    rw [ofTokens?_eq_some_iff.mp parsed] at scanned
    exact Token.spaced_of_scan scanned
  · intro spelling
    refine ⟨tokens value, ?_, ofTokens?_eq_some_iff.mpr rfl⟩
    have ends : Stops Numeral.continues [] := nofun
    obtain ⟨left, scanned⟩ := scan_spelling spelling fun _ _ _ => ends
    rw [List.append_nil] at scanned
    simpa [Token.scanWithin] using scanned

theorem plain_of_getLast? {value : Json} (plain : ∀ digits, value ≠ number digits) :
    ∀ token ∈ (tokens value).getLast?, token.isNumber = false := by
  intro token last
  cases value with
  | number digits => exact absurd rfl (plain digits)
  | array items =>
    rw [tokens, ← List.cons_append, List.getLast?_concat] at last
    cases last
    rfl
  | object members =>
    rw [tokens, ← List.cons_append, List.getLast?_concat] at last
    cases last
    rfl
  | _ =>
    cases last
    rfl

/-- Behind a tree that is no number nothing may follow but blanks. -/
theorem blank_of_read {value other : Json} {front behind : List Char} (spelling : value.Spelling front)
    (plain : ∀ digits, value ≠ number digits) (read : Json.read (front ++ behind) = some other) :
    ∀ char ∈ behind, isSpace char = true := by
  have halts : ∀ token ∈ (tokens value).getLast?, token.isNumber = true → Stops Numeral.continues behind := by
    intro token last number
    rw [plain_of_getLast? plain token last] at number
    cases number
  obtain ⟨left, scanned⟩ := scan_spelling spelling halts
  rw [Json.read, Option.bind_eq_some_iff] at read
  obtain ⟨row, found, parsed⟩ := read
  rw [scanned, Option.map_eq_some_iff] at found
  obtain ⟨more, later, rfl⟩ := found
  -- the row has both trees in front, so they are the same, and no token is left
  have whole := valueWithin_tokens other (Nat.le_refl _) []
  have enough : (tokens value).length ≤ (tokens value ++ more).length := by simp
  have part := valueWithin_tokens value enough more
  rw [List.append_nil, ← ofTokens?_eq_some_iff.mp parsed, part] at whole
  cases whole
  exact (Token.spaced_of_scanWithin later).blank_of_nil

/-- What is written for a tree spells it, if its numbers do. -/
theorem spelling_write (value : Json)
    (sound : ∀ spelling, .number spelling ∈ tokens value → Numeral.Spelling spelling) :
    value.Spelling value.write :=
  Token.spaced_write sound

end ReplicaRing.Json
