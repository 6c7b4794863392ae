import ReplicaRing.Json.Token

/-! JSON values as trees, read from tokens and turned back into them. Members keep their
order and may repeat a key: what a repeated key means is for the reader of the tree. -/

namespace ReplicaRing

inductive Json where
  | null
  | bool (value : Bool)
  | number (spelling : List Char)
  | string (text : Option (List Char))
  | array (items : List Json)
  | object (members : List (Option (List Char) × Json))
  deriving Repr

namespace Json

mutual

/-- The value at the front of some tokens, with as many steps to spend as given. -/
def valueWithin : Nat → List Token → Option (Json × List Token)
  | 0, _ => none
  | _ + 1, .null :: rest => some (null, rest)
  | _ + 1, .bool value :: rest => some (bool value, rest)
  | _ + 1, .number spelling :: rest => some (number spelling, rest)
  | _ + 1, .string text :: rest => some (string text, rest)
  | _ + 1, .openArray :: .closeArray :: rest => some (array [], rest)
  | steps + 1, .openArray :: rest =>
    (itemsWithin steps rest).map fun (items, rest) => (array items, rest)
  | _ + 1, .openObject :: .closeObject :: rest => some (object [], rest)
  | steps + 1, .openObject :: rest =>
    (membersWithin steps rest).map fun (members, rest) => (object members, rest)
  | _ + 1, _ => none

/-- The items of an array behind its opening bracket, at least one. -/
def itemsWithin : Nat → List Token → Option (List Json × List Token)
  | 0, _ => none
  | steps + 1, tokens =>
    match valueWithin steps tokens with
    | some (item, .closeArray :: rest) => some ([item], rest)
    | some (item, .comma :: rest) =>
      (itemsWithin steps rest).map fun (items, rest) => (item :: items, rest)
    | _ => none

/-- The members of an object behind its opening brace, at least one. -/
def membersWithin : Nat → List Token → Option (List (Option (List Char) × Json) × List Token)
  | steps + 1, .string key :: .colon :: tokens =>
    match valueWithin steps tokens with
    | some (value, .closeObject :: rest) => some ([(key, value)], rest)
    | some (value, .comma :: rest) =>
      (membersWithin steps rest).map fun (members, rest) => ((key, value) :: members, rest)
    | _ => none
  | _, _ => none

end

/-- The tree of a token list that holds one value and nothing behind it. Each step takes at
least one token, so their number is steps enough. -/
def ofTokens? (tokens : List Token) : Option Json :=
  match valueWithin tokens.length tokens with
  | some (value, []) => some value
  | _ => none

def read (text : List Char) : Option Json :=
  (Token.scan text).bind ofTokens?

end Json
end ReplicaRing
