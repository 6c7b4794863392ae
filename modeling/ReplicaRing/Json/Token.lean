import ReplicaRing.Text.Hex

/-! The tokens of JSON text. Blanks between tokens disappear here, so that everything after
this module sees the structure alone. A string keeps its characters if it has any: an escape
may name half of a surrogate pair, and a string with an unpaired half is JSON without being
text. -/

namespace ReplicaRing.Json

inductive Token where
  | openArray
  | closeArray
  | openObject
  | closeObject
  | comma
  | colon
  | null
  | bool (value : Bool)
  /-- A number as it is spelled; its value is never needed. -/
  | number (spelling : List Char)
  /-- The characters, or nothing where a surrogate half is unpaired. -/
  | string (text : Option (List Char))
  deriving DecidableEq, Repr

def isSpace (char : Char) : Bool :=
  char = ' ' || char = '\n' || char = '\t' || char = '\r'

/-- What one step inside a string yields: a character, or half of a surrogate pair, counted
from the first half of its kind. -/
inductive Piece where
  | char (char : Char)
  | high (offset : Nat)
  | low (offset : Nat)
  deriving DecidableEq, Repr

namespace Piece

/-- The meaning of a four-digit escape. -/
def ofCode (code : Nat) : Piece :=
  if 0xD800 ≤ code && code < 0xDC00 then high (code - 0xD800)
  else if 0xDC00 ≤ code && code < 0xE000 then low (code - 0xDC00)
  else char (Char.ofNat code)

/-- The text of the pieces, unless a half has no partner right beside it. -/
def join : List Piece → Option (List Char)
  | [] => some []
  | char c :: rest => (join rest).map (c :: ·)
  | high first :: low second :: rest =>
    (join rest).map (Char.ofNat (0x10000 + first * 0x400 + second) :: ·)
  | _ => none

end Piece

def hexValue (char : Char) : Option Nat :=
  if '0' ≤ char && char ≤ '9' then some (char.toNat - 48)
  else if 'a' ≤ char && char ≤ 'f' then some (char.toNat - 87)
  else if 'A' ≤ char && char ≤ 'F' then some (char.toNat - 55)
  else none

def hexCode (a b c d : Char) : Option Nat := do
  return (((← hexValue a) * 16 + (← hexValue b)) * 16 + (← hexValue c)) * 16 + (← hexValue d)

/-- The characters that a backslash and one letter stand for. -/
def escaped : Char → Option Char
  | '"' => some '"'
  | '\\' => some '\\'
  | '/' => some '/'
  | 'b' => some '\x08'
  | 'f' => some '\x0c'
  | 'n' => some '\n'
  | 'r' => some '\r'
  | 't' => some '\t'
  | _ => none

/-- The inside of a string up to its closing quote, and the text behind the quote. Control
characters must be escaped. -/
def pieces : List Char → Option (List Piece × List Char)
  | [] => none
  | '"' :: rest => some ([], rest)
  | '\\' :: 'u' :: a :: b :: c :: d :: rest => do
    let code ← hexCode a b c d
    let (inside, behind) ← pieces rest
    return (.ofCode code :: inside, behind)
  | '\\' :: letter :: rest => do
    let char ← escaped letter
    let (inside, behind) ← pieces rest
    return (.char char :: inside, behind)
  | char :: rest =>
    if char.toNat < 0x20 || char = '\\' then none
    else do
      let (inside, behind) ← pieces rest
      return (.char char :: inside, behind)

namespace Numeral

/-- The digits at the front of a text. -/
def digits (text : List Char) : List Char × List Char :=
  text.span Char.isDigit

def someDigits (text : List Char) : Option (List Char × List Char) :=
  match digits text with
  | ([], _) => none
  | found => some found

def whole : List Char → Option (List Char × List Char)
  | '0' :: rest => some (['0'], rest)
  | text => someDigits text

def fraction : List Char → Option (List Char × List Char)
  | '.' :: rest => (someDigits rest).map fun (found, rest) => ('.' :: found, rest)
  | text => some ([], text)

def exponentSign : List Char → List Char × List Char
  | '+' :: rest => (['+'], rest)
  | '-' :: rest => (['-'], rest)
  | text => ([], text)

def exponent : List Char → Option (List Char × List Char)
  | [] => some ([], [])
  | char :: rest =>
    if char = 'e' || char = 'E' then
      let (sign, rest) := exponentSign rest
      (someDigits rest).map fun (found, rest) => (char :: (sign ++ found), rest)
    else some ([], char :: rest)

def unsigned (text : List Char) : Option (List Char × List Char) := do
  let (first, rest) ← whole text
  let (second, rest) ← fraction rest
  let (third, rest) ← exponent rest
  return (first ++ second ++ third, rest)

/-- The number at the front of a text, cut off where it cannot go on. -/
def read : List Char → Option (List Char × List Char)
  | '-' :: rest => (unsigned rest).map fun (found, rest) => ('-' :: found, rest)
  | text => unsigned text

end Numeral

namespace Token

/-- The token at the front of a text that begins with no blank. -/
def next : List Char → Option (Token × List Char)
  | '[' :: rest => some (openArray, rest)
  | ']' :: rest => some (closeArray, rest)
  | '\x7b' :: rest => some (openObject, rest)
  | '\x7d' :: rest => some (closeObject, rest)
  | ',' :: rest => some (comma, rest)
  | ':' :: rest => some (colon, rest)
  | '"' :: rest => (pieces rest).map fun (inside, rest) => (string (Piece.join inside), rest)
  | 'n' :: 'u' :: 'l' :: 'l' :: rest => some (null, rest)
  | 't' :: 'r' :: 'u' :: 'e' :: rest => some (bool true, rest)
  | 'f' :: 'a' :: 'l' :: 's' :: 'e' :: rest => some (bool false, rest)
  | text => (Numeral.read text).map fun (spelling, rest) => (number spelling, rest)

/-- The tokens of a text, with as many steps to spend as given. -/
def scanWithin : Nat → List Char → Option (List Token)
  | _, [] => some []
  | 0, _ :: _ => none
  | steps + 1, char :: rest =>
    if isSpace char then scanWithin steps rest
    else match next (char :: rest) with
      | none => none
      | some (token, rest) => (scanWithin steps rest).map (token :: ·)

/-- The tokens of a text. Each takes at least one character, so the length is steps enough. -/
def scan (text : List Char) : Option (List Token) :=
  scanWithin text.length text

end Token
end ReplicaRing.Json
