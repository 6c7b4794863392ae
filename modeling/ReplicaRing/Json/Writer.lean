import ReplicaRing.Json.Tree

/-! The compact spelling of JSON trees: no blanks, quotes and backslashes escaped, control
characters by their short escapes or by four lower-case digits, all else as it is. -/

namespace ReplicaRing.Json

def writeChar (char : Char) : List Char :=
  if char = '"' then ['\\', '"']
  else if char = '\\' then ['\\', '\\']
  else if char = '\x08' then ['\\', 'b']
  else if char = '\x0c' then ['\\', 'f']
  else if char = '\n' then ['\\', 'n']
  else if char = '\r' then ['\\', 'r']
  else if char = '\t' then ['\\', 't']
  else if char.toNat < 0x20 then '\\' :: 'u' :: Text.hexDigits 4 char.toNat
  else [char]

/-- A quoted string. What is no text is spelled by the first surrogate half. -/
def writeString : Option (List Char) → List Char
  | some text => '"' :: (text.flatMap writeChar ++ ['"'])
  | none => ['"', '\\', 'u', 'd', '8', '0', '0', '"']

namespace Token

def write : Token → List Char
  | openArray => ['[']
  | closeArray => [']']
  | openObject => ['\x7b']
  | closeObject => ['\x7d']
  | comma => [',']
  | colon => [':']
  | null => ['n', 'u', 'l', 'l']
  | bool true => ['t', 'r', 'u', 'e']
  | bool false => ['f', 'a', 'l', 's', 'e']
  | number spelling => spelling
  | string text => writeString text

end Token

mutual

def tokens : Json → List Token
  | null => [.null]
  | bool value => [.bool value]
  | number spelling => [.number spelling]
  | string text => [.string text]
  | array items => .openArray :: (itemTokens items ++ [.closeArray])
  | object members => .openObject :: (memberTokens members ++ [.closeObject])

def itemTokens : List Json → List Token
  | [] => []
  | [item] => tokens item
  | item :: next :: rest => tokens item ++ .comma :: itemTokens (next :: rest)

def memberTokens : List (Option (List Char) × Json) → List Token
  | [] => []
  | [(key, value)] => .string key :: .colon :: tokens value
  | (key, value) :: next :: rest =>
    .string key :: .colon :: (tokens value ++ .comma :: memberTokens (next :: rest))

end

/-- The compact spelling of a tree. -/
def write (value : Json) : List Char :=
  (tokens value).flatMap Token.write

end ReplicaRing.Json
