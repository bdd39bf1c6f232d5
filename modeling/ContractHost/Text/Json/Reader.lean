import ContractHost.Text.Json
/-!
# Reading JSON text

A text is read in two passes, each a fold over its input. The first is a machine on characters that finds the tokens;
the second is a machine on tokens that keeps the containers that are still open on a stack.
-/
namespace ContractHost.Json

/-! ## Tokens -/

/-- The smallest parts of a text that have a meaning. -/
inductive Token where
  | openList
  | closeList
  | openObject
  | closeObject
  | comma
  | colon
  /-- A text, or `none` if half a surrogate pair stands in it. -/
  | text (s : Option String)
  /-- A word or a number. -/
  | word (j : Json)

/-- The characters that code units stand for; both halves of a surrogate pair have to be there. -/
def ofUnits : List Nat → Option (List Char)
  | [] => some []
  | u :: us =>
    if 0xD800 ≤ u ∧ u ≤ 0xDFFF then
      match us with
      | [] => none
      | l :: rest =>
        if u ≤ 0xDBFF ∧ 0xDC00 ≤ l ∧ l ≤ 0xDFFF then
          (ofUnits rest).map (Char.ofNat (0x10000 + (u - 0xD800) * 1024 + (l - 0xDC00)) :: ·)
        else none
    else (ofUnits us).map (Char.ofNat u :: ·)

def allDigits (cs : List Char) : Bool :=
  !cs.isEmpty && cs.all Char.isDigit

/-- Whether a text is an exponent or nothing. -/
def isExponent : List Char → Bool
  | [] => true
  | e :: rest =>
    (e = 'e' || e = 'E') &&
      match rest with
      | '+' :: ds => allDigits ds
      | '-' :: ds => allDigits ds
      | ds => allDigits ds

/-- Whether a text is a fraction, an exponent, both or nothing. -/
def isTail : List Char → Bool
  | '.' :: rest =>
    allDigits (rest.takeWhile Char.isDigit) && isExponent (rest.dropWhile Char.isDigit)
  | rest => isExponent rest

/-- The number without sign that a word is. -/
def unsigned? (negative : Bool) (cs : List Char) : Option Json :=
  let digits := cs.takeWhile Char.isDigit
  let tail := cs.dropWhile Char.isDigit
  match digits with
  | [] => none
  | d :: ds =>
    if d = '0' ∧ !ds.isEmpty then none
    else if tail.isEmpty then
      match Decimal.ofDigits? digits with
      | none => none
      | some n => if negative then if n = 0 then some .unheld else some (.int (-n)) else some (.int n)
    else if isTail tail then some .unheld
    else none

/-- The value of a word: a number, a truth value or `null`. -/
def ofWord? : List Char → Option Json
  | ['n', 'u', 'l', 'l'] => some .null
  | ['t', 'r', 'u', 'e'] => some (.bool true)
  | ['f', 'a', 'l', 's', 'e'] => some (.bool false)
  | '-' :: cs => unsigned? true cs
  | cs => unsigned? false cs

/-- Where the first pass stands. What has been read of a token is kept backwards. -/
inductive Scan where
  | between
  | word (read : List Char)
  | quoted (units : List Nat)
  | escape (units : List Nat)
  /-- `missing` digits of a code unit are still to come. -/
  | digits (units : List Nat) (missing : Nat) (unit : Nat)

/-- Whether a character is part of words and numbers. -/
def isWordChar (c : Char) : Bool :=
  c.isAlphanum || c = '+' || c = '-' || c = '.'

/-- The first pass: the tokens found so far, last one first, and where it stands. -/
abbrev Scanned := List Token × Scan

def scanBetween (found : List Token) (c : Char) : Option Scanned :=
  if c = ' ' ∨ c = '\n' ∨ c = '\t' ∨ c = '\r' then some (found, .between)
  else if c = '[' then some (.openList :: found, .between)
  else if c = ']' then some (.closeList :: found, .between)
  else if c = '\x7b' then some (.openObject :: found, .between)
  else if c = '\x7d' then some (.closeObject :: found, .between)
  else if c = ',' then some (.comma :: found, .between)
  else if c = ':' then some (.colon :: found, .between)
  else if c = '"' then some (found, .quoted [])
  else if isWordChar c then some (found, .word [c])
  else none

/-- The code unit of the character after a backslash. -/
def escaped? (c : Char) : Option Nat :=
  if c = '"' ∨ c = '\\' ∨ c = '/' then some c.toNat
  else if c = 'b' then some 8
  else if c = 't' then some 9
  else if c = 'n' then some 10
  else if c = 'f' then some 12
  else if c = 'r' then some 13
  else none

def hexDigit? (c : Char) : Option Nat :=
  if c.toNat < 128 then Hex.value? (UInt8.ofNat c.toNat) else none

def scan : Scanned → Char → Option Scanned
  | (found, .between), c => scanBetween found c
  | (found, .word read), c =>
    if isWordChar c then some (found, .word (c :: read))
    else match ofWord? read.reverse with
      | none => none
      | some j => scanBetween (.word j :: found) c
  | (found, .quoted units), c =>
    if c = '"' then some (.text ((ofUnits units.reverse).map String.ofList) :: found, .between)
    else if c = '\\' then some (found, .escape units)
    else if c.toNat < 32 then none
    else some (found, .quoted (c.toNat :: units))
  | (found, .escape units), c =>
    if c = 'u' then some (found, .digits units 4 0)
    else (escaped? c).map fun unit => (found, .quoted (unit :: units))
  | (found, .digits units missing unit), c =>
    match hexDigit? c with
    | none => none
    | some d =>
      let unit := 16 * unit + d
      if missing ≤ 1 then some (found, .quoted (unit :: units)) else some (found, .digits units (missing - 1) unit)

/-- The tokens of a text. A blank at the end closes a word. -/
def tokens? (s : List Char) : Option (List Token) :=
  match (s ++ [' ']).foldlM scan ([], .between) with
  | some (found, .between) => some found.reverse
  | _ => none

/-! ## Values -/

/-- A container that is still open; what has been read is kept backwards. -/
inductive Open where
  | list (elements : List Json)
  /-- The members, or `none` once a key could not be held. -/
  | object (members : Option (List (String × Json)))
  /-- A member whose value is to come. -/
  | member (members : Option (List (String × Json))) (key : Option String)

/-- What the second pass waits for. -/
inductive Await where
  | value
  /-- A value or the end of a list. -/
  | element
  /-- A key or the end of an object. -/
  | key
  /-- A key. -/
  | nextKey
  | colon
  /-- A comma or the end of the container. -/
  | separator
  | nothing (j : Json)

/-- The second pass: the open containers, innermost first, and what it waits for. -/
abbrev Built := List Open × Await

def supply : List Open → Json → Option Built
  | [], j => some ([], .nothing j)
  | .list xs :: outer, j => some (.list (j :: xs) :: outer, .separator)
  | .member (some ms) (some k) :: outer, j => some (.object (some ((k, j) :: ms)) :: outer, .separator)
  | .member _ _ :: outer, _ => some (.object none :: outer, .separator)
  | .object _ :: _, _ => none

def close : List Open → Token → Option Built
  | .list xs :: outer, .closeList => supply outer (.list xs.reverse)
  | .object (some ms) :: outer, .closeObject => supply outer (.object ms.reverse)
  | .object none :: outer, .closeObject => supply outer .unheld
  | _, _ => none

def begin? (stack : List Open) : Token → Option Built
  | .openList => some (.list [] :: stack, .element)
  | .openObject => some (.object (some []) :: stack, .key)
  | .text (some s) => supply stack (.text s)
  | .text none => supply stack .unheld
  | .word j => supply stack j
  | _ => none

def build : Built → Token → Option Built
  | (stack, .value), t => begin? stack t
  | (stack, .element), t =>
    match t with
    | .closeList => close stack t
    | _ => begin? stack t
  | (.object ms :: outer, .key), t =>
    match t with
    | .text k => some (.member ms k :: outer, .colon)
    | _ => close (.object ms :: outer) t
  | (.object ms :: outer, .nextKey), .text k => some (.member ms k :: outer, .colon)
  | (stack, .colon), .colon => some (stack, .value)
  | (stack, .separator), t =>
    match t, stack with
    | .comma, .list _ :: _ => some (stack, .value)
    | .comma, .object _ :: _ => some (stack, .nextKey)
    | _, _ => close stack t
  | _, _ => none

/-- The value that a text denotes. -/
def parse? (s : String) : Option Json :=
  match tokens? s.toList with
  | none => none
  | some ts =>
    match ts.foldlM build ([], .value) with
    | some ([], .nothing j) => some j
    | _ => none

end ContractHost.Json
