import ContractHost.Text.Json
/-!
# TOML text

How documents are written in TOML. Every value of a document stands on a line of its own, and the tables follow with a
header each.

A text is written in the first of these forms that needs no escapes: on one line in double
quotes, on one line in single quotes, on several lines in double quotes, on several lines in single quotes. If all need
escapes, it is written in double quotes, on several lines if it has line ends.
-/
namespace ContractHost.Toml

def longestRun (q : Char) (cs : List Char) : Nat :=
  (cs.foldl (fun (best, now) c =>
    let now := if c = q then now + 1 else 0
    (if best < now then now else best, now)) (0, 0)).1

/-- Whether a character can only be written as an escape. -/
def needsCode (c : Char) : Bool :=
  c ≠ '\t' && c ≠ '\n' && (c.toNat < 32 || c.toNat = 127)

def codeOf (c : Char) : List Char :=
  ['\\', 'u', '0', '0', (Hex.digit (c.toNat / 16)).toUpper, (Hex.digit (c.toNat % 16)).toUpper]

/-- The characters of a text in double quotes. Up to `free` quotes in a row need no escape. -/
def escapeAll (lines : Bool) (free : Nat) : Nat → List Char → List Char
  | _, [] => []
  | quotes, c :: cs =>
    if c = '"' then
      if quotes < free then c :: escapeAll lines free (quotes + 1) cs
      else '\\' :: c :: escapeAll lines free 0 cs
    else
      let shown : List Char :=
        if c.toNat = 8 then ['\\', 'b']
        else if c.toNat = 9 then ['\\', 't']
        else if c.toNat = 10 then if lines then [c] else ['\\', 'n']
        else if c.toNat = 12 then ['\\', 'f']
        else if c.toNat = 13 then ['\\', 'r']
        else if c = '\\' then ['\\', '\\']
        else if needsCode c then codeOf c
        else [c]
      shown ++ escapeAll lines free 0 cs

def basic (cs : List Char) : List Char :=
  '"' :: (escapeAll false 0 0 cs ++ ['"'])

def literal (cs : List Char) : List Char :=
  '\'' :: (cs ++ ['\''])

/-- What stands before a text on several lines: a line end that does not belong to it, if it has line ends. -/
def opening (cs : List Char) : List Char :=
  if cs.contains '\n' then ['\n'] else []

def basicLines (cs : List Char) : List Char :=
  ['"', '"', '"'] ++ (opening cs ++ (escapeAll true 2 0 cs ++ ['"', '"', '"']))

def literalLines (cs : List Char) : List Char :=
  ['\'', '\'', '\''] ++ (opening cs ++ (cs ++ ['\'', '\'', '\'']))

def quote (s : String) : List Char :=
  let cs := s.toList
  let lines := cs.contains '\n'
  let codes := cs.any needsCode
  let slashes := cs.contains '\\'
  let doubles := longestRun '"' cs
  let singles := longestRun '\'' cs
  if !codes && !slashes && doubles == 0 && !lines then basic cs
  else if !codes && singles == 0 && !lines then literal cs
  else if !codes && !slashes && doubles ≤ 2 then basicLines cs
  else if !codes && singles ≤ 2 then literalLines cs
  else if lines then basicLines cs
  else basic cs

def maxNumber : Int := 9223372036854775807

def minNumber : Int := -9223372036854775808

def scalar? : Json → Option (List Char)
  | .text s => some (quote s)
  | .bool true => some ['t', 'r', 'u', 'e']
  | .bool false => some ['f', 'a', 'l', 's', 'e']
  | .int n => if minNumber ≤ n ∧ n ≤ maxNumber then some (Decimal.integerText n).toList else none
  | _ => none

def line? (member : String × Json) : Option (List Char) :=
  (scalar? member.2).map fun shown => member.1.toList ++ ' ' :: '=' :: ' ' :: (shown ++ ['\n'])

/-- A table behind an empty line and its header, or else a line. -/
def member? : String × Json → Option (List Char)
  | (name, .object ms) => do
    let shown ← ms.mapM line?
    return '\n' :: '[' :: (name.toList ++ ']' :: '\n' :: shown.flatten)
  | member => line? member

/-- A document: values first, then tables. There is none if a number is too large. -/
def document? (ms : List (String × Json)) : Option String := do
  let shown ← ms.mapM member?
  return String.ofList shown.flatten

end ContractHost.Toml
