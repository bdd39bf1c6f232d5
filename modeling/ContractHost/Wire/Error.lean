/-!
# Faults of wire records

A fault is found at one place of the input; on its way out it collects the known fields that enclose the place.
-/
namespace ContractHost.Wire

/-- The form of a field's value, as its key announces it. -/
inductive WireType where
  | varint
  | eightBytes
  | delimited
  | groupStart
  | groupEnd
  | fourBytes
  deriving DecidableEq, Repr

namespace WireType

def code : WireType → Nat
  | varint => 0
  | eightBytes => 1
  | delimited => 2
  | groupStart => 3
  | groupEnd => 4
  | fourBytes => 5

def ofCode? : Nat → Option WireType
  | 0 => some varint
  | 1 => some eightBytes
  | 2 => some delimited
  | 3 => some groupStart
  | 4 => some groupEnd
  | 5 => some fourBytes
  | _ => none

def name : WireType → String
  | varint => "Varint"
  | eightBytes => "SixtyFourBit"
  | delimited => "LengthDelimited"
  | groupStart => "StartGroup"
  | groupEnd => "EndGroup"
  | fourBytes => "ThirtyTwoBit"

@[simp] theorem ofCode?_code (w : WireType) : ofCode? w.code = some w := by
  cases w <;> rfl

end WireType

/-- What is wrong with the input. -/
inductive Fault where
  /-- A number takes more than 64 bits or breaks off. -/
  | varint
  /-- A key takes more than 32 bits. -/
  | key (n : Nat)
  /-- A key has a wire type that does not exist. -/
  | wireType (code : Nat)
  /-- A key has the tag zero. -/
  | tag
  /-- A known field has a value of another form. -/
  | unexpected (actual expected : WireType)
  /-- A value is longer than the input. -/
  | underflow
  /-- The fields of an embedded record end beyond the record. -/
  | overrun
  /-- A text is not UTF-8. -/
  | text
  /-- A group ends that was not open. -/
  | groupEnd
  /-- Records or groups are nested too deeply. -/
  | nesting
  deriving DecidableEq, Repr

def Fault.reason : Fault → String
  | .varint => "invalid varint"
  | .key n => "invalid key value: " ++ toString n
  | .wireType code => "invalid wire type value: " ++ toString code
  | .tag => "invalid tag value: 0"
  | .unexpected actual expected => "invalid wire type: " ++ actual.name ++ " (expected " ++ expected.name ++ ")"
  | .underflow => "buffer underflow"
  | .overrun => "delimited length exceeded"
  | .text => "invalid string value: data is not UTF-8 encoded"
  | .groupEnd => "unexpected end group tag"
  | .nesting => "recursion limit reached"

/-- A fault and the known fields around it, innermost first. -/
structure Error where
  fault : Fault
  /-- Record and field names. -/
  path : List (String × String) := []
  deriving DecidableEq, Repr

namespace Error

def message (e : Error) : String :=
  e.path.foldl (fun text (record, field) => text ++ record ++ "." ++ field ++ ": ")
    "failed to decode Protobuf message: " ++ e.fault.reason

/-- The fault as seen from outside a field. -/
def inside (e : Error) (record field : String) : Error :=
  { e with path := e.path ++ [(record, field)] }

end Error

end ContractHost.Wire
