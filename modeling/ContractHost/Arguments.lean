import ContractHost.FormatError
import ContractHost.Wire.Records
/-!
# Packed argument lists

A packed list starts with a tag: behind 0 the rest is one argument, behind 1 it is a record of arguments. No bytes at
all are the empty list.
-/
namespace ContractHost.Arguments

/-- The form of a packed argument list. -/
inductive Form where
  /-- One argument, as it is. -/
  | plain
  /-- A record of arguments. -/
  | structured
  deriving DecidableEq, Repr

def Form.tag : Form → UInt8
  | .plain => 0
  | .structured => 1

def Form.ofTag (tag : UInt8) : Except FormatError Form :=
  if tag = 0 then .ok .plain
  else if tag = 1 then .ok .structured
  else .error (.argumentTag tag)

def pack (args : List Bytes) : Bytes :=
  Form.structured.tag :: Wire.putArguments args

def packPlain (arg : List UInt8) : Bytes :=
  Form.plain.tag :: arg

/-- The arguments of a packed list, or why it is none. -/
def decode : List UInt8 → Except FormatError (List Bytes)
  | [] => .ok []
  | tag :: payload => do
    match ← Form.ofTag tag with
    | .plain => return [payload]
    | .structured => (Wire.readArguments payload).mapError .arguments

/-- The arguments of a packed list; what is none has no arguments. -/
def unpack (b : List UInt8) : List Bytes :=
  match decode b with
  | .ok args => args
  | .error _ => []

end ContractHost.Arguments
