import ContractHost.FormatError
import ContractHost.Radix
/-!
# Amounts of tokens

An amount is a natural number of any size. What is read from bytes or from a text has to fit 32 bytes.
-/
namespace ContractHost

abbrev Amount := Nat

namespace Amount

/-- The most bytes that an amount from outside may take. -/
def maxBytes : Nat := 32

/-- The shortest big-endian form, empty for zero. -/
def toBytes (a : Nat) : Bytes :=
  Bytes.ofNat a

/-- Reads a big-endian form; leading zeros do not count. -/
def ofBytes (b : List UInt8) : Except FormatError Amount :=
  let size := (Bytes.significant b).length
  if maxBytes < size then .error (.amountSize size) else .ok (Bytes.toNat b)

def text (a : Nat) : String :=
  Decimal.text a

def ofText (s : String) : Except FormatError Amount :=
  match Decimal.lenient? s.toList with
  | none => .error (.amountText s)
  | some a =>
    let size := (toBytes a).length
    if maxBytes < size then .error (.amountSize size) else .ok a

def minus? (a b : Nat) : Option Amount :=
  if a < b then none else some (a - b)

end Amount

end ContractHost
