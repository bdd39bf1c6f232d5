import ContractHost.Bytes
/-!
# JSON values and their text

The documents of this library hold integers, texts, lists and objects. The compact text has no blanks; the indented one
puts every element on a line of its own, two spaces further in than its container.
-/
namespace ContractHost

/-- A JSON value. -/
inductive Json where
  | null
  | bool (b : Bool)
  | int (n : Int)
  | text (s : String)
  | list (elements : List Json)
  | object (members : List (String × Json))
  /-- A well-formed value that is read but not held: a number that is no integer, a text with half a surrogate pair,
  an object that has such a text for a key. It is written as `null`. -/
  | unheld

namespace Json

/-- A character inside a text: quotes, backslashes and control characters are escaped. -/
def escape (c : Char) : List Char :=
  if c = '"' then ['\\', '"']
  else if c = '\\' then ['\\', '\\']
  else if c.toNat = 8 then ['\\', 'b']
  else if c.toNat = 9 then ['\\', 't']
  else if c.toNat = 10 then ['\\', 'n']
  else if c.toNat = 12 then ['\\', 'f']
  else if c.toNat = 13 then ['\\', 'r']
  else if c.toNat < 32 then ['\\', 'u', '0', '0', Hex.digit (c.toNat / 16), Hex.digit (c.toNat % 16)]
  else [c]

def quote (s : String) : List Char :=
  '"' :: (s.toList.flatMap escape ++ ['"'])

/-- The text of a value that is neither a list nor an object. -/
def scalarChars : Json → List Char
  | .bool true => ['t', 'r', 'u', 'e']
  | .bool false => ['f', 'a', 'l', 's', 'e']
  | .int n => (Decimal.integerText n).toList
  | .text s => quote s
  | _ => ['n', 'u', 'l', 'l']

mutual

def compactChars : Json → List Char
  | .list xs => '[' :: (compactElements true xs ++ [']'])
  | .object ms => '\x7b' :: (compactMembers true ms ++ ['\x7d'])
  | j => scalarChars j

def compactElements (first : Bool) : List Json → List Char
  | [] => []
  | j :: rest => (if first then [] else [',']) ++ (compactChars j ++ compactElements false rest)

def compactMembers (first : Bool) : List (String × Json) → List Char
  | [] => []
  | (k, j) :: rest =>
    (if first then [] else [',']) ++ (quote k ++ ':' :: (compactChars j ++ compactMembers false rest))

end

def newLine (depth : Nat) : List Char :=
  '\n' :: List.replicate (2 * depth) ' '

mutual

def prettyChars (depth : Nat) : Json → List Char
  | .list [] => ['[', ']']
  | .list xs => '[' :: (prettyElements (depth + 1) true xs ++ (newLine depth ++ [']']))
  | .object [] => ['\x7b', '\x7d']
  | .object ms => '\x7b' :: (prettyMembers (depth + 1) true ms ++ (newLine depth ++ ['\x7d']))
  | j => scalarChars j

def prettyElements (depth : Nat) (first : Bool) : List Json → List Char
  | [] => []
  | j :: rest =>
    (if first then [] else [',']) ++ (newLine depth ++ (prettyChars depth j ++ prettyElements depth false rest))

def prettyMembers (depth : Nat) (first : Bool) : List (String × Json) → List Char
  | [] => []
  | (k, j) :: rest =>
    (if first then [] else [',']) ++
      (newLine depth ++ (quote k ++ ':' :: ' ' :: (prettyChars depth j ++ prettyMembers depth false rest)))

end

def compact (j : Json) : String :=
  String.ofList (compactChars j)

def pretty (j : Json) : String :=
  String.ofList (prettyChars 0 j)

end Json

end ContractHost
