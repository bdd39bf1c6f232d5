/-!
# Script sources

A script has sections, each under a header `fn` with a name. A line loses its comment, which starts at `#`, and the
blanks around it; empty lines do not count. The body of a section ends at the next header. A line of a body is an
instruction.
-/
namespace ContractHost

/-! ## Lines and words

A text is cut into lines at its line feeds and into words at its blanks. Blanks are the characters with the property
White_Space.
-/

namespace Text

/-- Whether a character has the property White_Space. -/
def isBlank (c : Char) : Bool :=
  let n := c.toNat
  (9 ≤ n && n ≤ 13) || n == 0x20 || n == 0x85 || n == 0xA0 || n == 0x1680 || (0x2000 ≤ n && n ≤ 0x200A) ||
    n == 0x2028 || n == 0x2029 || n == 0x202F || n == 0x205F || n == 0x3000

/-- The pieces of a text between the characters that separate. There is one more than separators. -/
def split (separates : Char → Bool) : List Char → List (List Char)
  | [] => [[]]
  | c :: cs =>
    match split separates cs with
    | [] => [[]]
    | piece :: rest => if separates c then [] :: piece :: rest else (c :: piece) :: rest

def lines (cs : List Char) : List (List Char) :=
  split (· = '\n') cs

def words (cs : List Char) : List (List Char) :=
  (split isBlank cs).filter fun word => !word.isEmpty

/-- The text without the blanks in front and at the end. -/
def trim (cs : List Char) : List Char :=
  ((cs.dropWhile isBlank).reverse.dropWhile isBlank).reverse

end Text

namespace Script

/-! ## Sections -/

def clean (line : List Char) : List Char :=
  Text.trim (line.takeWhile (· ≠ '#'))

/-- The name in a header. -/
def header? : List Char → Option (List Char)
  | 'f' :: 'n' :: ' ' :: name => some (Text.trim name)
  | _ => none

/-- Where a single pass over the lines of a source stands. The lines of a body are kept backwards. -/
inductive Pass where
  | seeking
  | reading (body : List (List Char))
  /-- The header behind the body has been reached. -/
  | done (body : List (List Char))

namespace Pass

def step (name : List Char) (p : Pass) (line : List Char) : Pass :=
  let line := clean line
  if line.isEmpty then p
  else match header? line, p with
    | _, .done body => .done body
    | some found, .seeking => if found = name then .reading [] else .seeking
    | some _, .reading body => .done body
    | none, .seeking => .seeking
    | none, .reading body => .reading (line :: body)

def body? : Pass → Option (List (List Char))
  | .seeking => none
  | .reading body => some body.reverse
  | .done body => some body.reverse

end Pass

/-- The body of the first section with a name, found in a single pass over the lines. -/
def lookUp (source name : List Char) : Option (List (List Char)) :=
  ((Text.lines source).foldl (Pass.step name) .seeking).body?

/-! ## Instructions

An instruction is a line of words: its name, then operands. Operands are kept as they are written and are read when the
instruction is carried out, so that a fault in one of them shows no earlier.
-/

/-- An instruction with its operands. -/
inductive Instruction where
  | store (key value : String)
  | load (key : String)
  | remove (key : String)
  /-- Reads another contract's storage. -/
  | read (address key : String)
  | balance (address : Option String)
  | send (payee amount : String)
  | burn (amount : String)
  | emit (name : String) (args : List String)
  | debug (words : List String)
  /-- Calls a method; a strict call must not fail. -/
  | call (strict : Bool) (address method gas : String) (args : List String)
  /-- Deploys the contract's own code once more. -/
  | deploy (nonce gas : String) (args : List String)
  | identityState (address : String)
  | caller
  | origin
  | self
  | pay
  | block
  /-- Spends gas. -/
  | spend (amount : String)
  | require (left right : String)
  | fail (words : List String)
  | panic
  | ret (value : Option String)
  deriving DecidableEq

def Instruction.ofWords? : List String → Option Instruction
  | ["store", key, value] => some (.store key value)
  | ["load", key] => some (.load key)
  | ["remove", key] => some (.remove key)
  | ["read", address, key] => some (.read address key)
  | ["balance"] => some (.balance none)
  | ["balance", address] => some (.balance (some address))
  | ["send", payee, amount] => some (.send payee amount)
  | ["burn", amount] => some (.burn amount)
  | "emit" :: name :: args => some (.emit name args)
  | "debug" :: words => some (.debug words)
  | "call" :: address :: method :: gas :: args => some (.call false address method gas args)
  | "call!" :: address :: method :: gas :: args => some (.call true address method gas args)
  | "deploy" :: nonce :: gas :: args => some (.deploy nonce gas args)
  | ["identity_state", address] => some (.identityState address)
  | ["caller"] => some .caller
  | ["origin"] => some .origin
  | ["self"] => some .self
  | ["pay"] => some .pay
  | ["block"] => some .block
  | ["gas", amount] => some (.spend amount)
  | ["require", left, right] => some (.require left right)
  | "fail" :: words => some (.fail words)
  | ["panic"] => some .panic
  | ["return"] => some (.ret none)
  | ["return", value] => some (.ret (some value))
  | _ => none

/-- The instruction on a line. -/
def Instruction.ofLine? (line : List Char) : Option Instruction :=
  ofWords? ((Text.words line).map String.ofList)

end Script

end ContractHost
