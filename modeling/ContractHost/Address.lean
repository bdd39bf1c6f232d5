import ContractHost.Digest
import ContractHost.OrderedMap
/-!
# Addresses

An address has 20 bytes. Its text is bech32m with the human-readable part `wh`; hexadecimal text is read as well. A
contract's address is taken from the digest of its code's digest, its constructor arguments and a nonce.
-/
namespace ContractHost

structure Address where
  bytes : Bytes
  length_eq : bytes.length = 20
  deriving DecidableEq

namespace Address

/-- Addresses are ordered by their bytes. -/
instance : OrderedKey Address where
  before a b := OrderedKey.before a.bytes b.bytes
  irrefl a := OrderedKey.irrefl a.bytes
  trans h h' := OrderedKey.trans h h'
  total a b := by
    rcases OrderedKey.total a.bytes b.bytes with h | h
    · left
      cases a
      cases b
      simpa using h
    · exact .inr h

def zero : Address :=
  ⟨List.replicate 20 0, by simp⟩

instance : Inhabited Address := ⟨zero⟩

def isZero (a : Address) : Bool :=
  decide (a = zero)

def ofBytes (b : List UInt8) : Except FormatError Address :=
  if h : b.length = 20 then .ok ⟨b, h⟩ else .error (.addressLength b.length)

def contractPreimage (code args nonce : List UInt8) : Bytes :=
  (Digest.of code).bytes ++ args ++ nonce

/-- The address of a contract deployed with this code, these packed arguments and this nonce. -/
def ofContract (code args nonce : List UInt8) : Address :=
  ⟨(Digest.of (contractPreimage code args nonce)).bytes.take 20, by
    rw [List.length_take, (Digest.of _).length_eq]; rfl⟩

/-- The human-readable part of every address. -/
def part : List Char :=
  ['w', 'h']

def hex (a : Address) : String :=
  Hex.encode a.bytes

def hexText (a : Address) : String :=
  "0x" ++ a.hex

def text (a : Address) : String :=
  Bech32.encode part a.bytes

def ofDigits (digits : String) : Except FormatError Address :=
  match Hex.decode digits with
  | .error e => .error (.hex e)
  | .ok b => ofBytes b

def ofText (s : String) : Except FormatError Address :=
  match s.toList with
  | 'w' :: 'h' :: '1' :: _ =>
    match Bech32.decode s with
    | .error e => .error (.bech32 e)
    | .ok (found, b) => if found = part then ofBytes b else .error (.addressPart (String.ofList found))
  | '0' :: 'x' :: digits => ofDigits (String.ofList digits)
  | '0' :: 'X' :: digits => ofDigits (String.ofList digits)
  | _ => .error (.addressForm s)

end Address

end ContractHost
