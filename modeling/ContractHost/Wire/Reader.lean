import ContractHost.Bytes
import ContractHost.Wire.Error
/-!
# Reading and writing the fields of a record

A record is a sequence of fields, each a key and a value. A key holds the field's tag and the form of its value.
Numbers are written in groups of seven bits, least significant first.

A reader takes the input that is left and returns a value with the input after it. Records are read by merging one
field after the other into a value; the fields of an embedded record may read beyond its end, which is noticed after
the field.
-/
namespace ContractHost.Wire

abbrev Reader (α : Type) := List UInt8 → Except Error (α × List UInt8)

/-- The report of a fault at this place. -/
def fail {α : Type} (f : Fault) : Except Error α :=
  .error { fault := f }

/-! ## Numbers -/

/-- A number in groups of seven bits; every byte but the last has its high bit set. -/
def putVarint (n : Nat) : Bytes :=
  if n < 128 then [UInt8.ofNat n] else UInt8.ofNat (n % 128 + 128) :: putVarint (n / 128)
termination_by n
decreasing_by omega

/-- Reads a number of 64 bits, of which `place` groups have been read. The tenth group has one bit. -/
def varintFrom (place : Nat) : Reader Nat
  | [] => fail .varint
  | b :: rest =>
    if b < 128 then
      if place = 9 ∧ 2 ≤ b then fail .varint else .ok (b.toNat, rest)
    else if 9 ≤ place then fail .varint
    else do
      let (high, rest) ← varintFrom (place + 1) rest
      return (b.toNat - 128 + 128 * high, rest)

def varint : Reader Nat :=
  varintFrom 0

/-! ## Keys -/

/-- The tag of a field and the form of its value. -/
structure Key where
  tag : Nat
  wireType : WireType
  deriving DecidableEq, Repr

def putKey (tag : Nat) (w : WireType) : Bytes :=
  putVarint (tag * 8 + w.code)

def key : Reader Key := fun input => do
  let (n, rest) ← varint input
  if Nat.pow 2 32 ≤ n then fail (.key n)
  else match WireType.ofCode? (n % 8) with
    | none => fail (.wireType (n % 8))
    | some w => if n / 8 = 0 then fail .tag else return (⟨n / 8, w⟩, rest)

def expect (expected actual : WireType) : Except Error Unit :=
  if actual = expected then .ok () else fail (.unexpected actual expected)

/-! ## Values -/

/-- Reads a length and makes sure that the input has as many bytes after it. -/
def length : Reader Nat := fun input => do
  let (n, rest) ← varint input
  if rest.length < n then fail .underflow else return (n, rest)

def byteString : Reader Bytes := fun input => do
  let (n, rest) ← length input
  return (rest.take n, rest.drop n)

def text : Reader String := fun input => do
  let (b, rest) ← byteString input
  match Bytes.text? b with
  | some s => return (s, rest)
  | none => fail .text

/-- A number field, left out if it is zero. -/
def putNumber (tag n : Nat) : Bytes :=
  if n = 0 then [] else putKey tag .varint ++ putVarint n

/-- A field of known length, written even if it is empty. -/
def putDelimited (tag : Nat) (b : List UInt8) : Bytes :=
  putKey tag .delimited ++ putVarint b.length ++ b

/-- A byte string field, left out if it is empty. -/
def putBytes (tag : Nat) (b : List UInt8) : Bytes :=
  if b = [] then [] else putDelimited tag b

/-- A text field, left out if it is empty. -/
def putText (tag : Nat) (s : String) : Bytes :=
  putBytes tag (Bytes.ofText s)

/-! ## Records -/

/-- Merges one field, whose key has been read, into a record. -/
abbrev Step (α : Type) := Key → α → Reader α

/-- Merges fields until at most `limit` bytes are left. A field takes at least one byte, so `input.length` rounds do. -/
def fieldsFor {α : Type} (step : Step α) (limit : Nat) : Nat → α → Reader α
  | 0, a, input => .ok (a, input)
  | rounds + 1, a, input =>
    if input.length ≤ limit then .ok (a, input)
    else do
      let (k, rest) ← key input
      let (a, rest) ← step k a rest
      fieldsFor step limit rounds a rest

def fields {α : Type} (step : Step α) (limit : Nat) (a : α) : Reader α := fun input =>
  fieldsFor step limit input.length a input

/-- Reads a record that is the whole input. -/
def record {α : Type} (step : Step α) (blank : α) (input : List UInt8) : Except Error α := do
  let (a, _) ← fields step 0 blank input
  return a

/-- Merges an embedded record behind its length into a value. -/
def embedded {α : Type} (step : Step α) (a : α) : Reader α := fun input => do
  let (n, rest) ← length input
  let limit := rest.length - n
  let (a, rest) ← fields step limit a rest
  if rest.length = limit then return (a, rest) else fail .overrun

/-- Reads a known field: a fault inside it is reported with the names of record and field. -/
def named {α : Type} (record field : String) (r : Except Error α) : Except Error α :=
  r.mapError fun e => e.inside record field

def dropBytes (n : Nat) (input : List UInt8) : Except Error (List UInt8) :=
  if input.length < n then fail .underflow else .ok (input.drop n)

/-- Skips the fields of a group up to its end, each by `skip`. -/
def skipGroup (skip : Key → List UInt8 → Except Error (List UInt8)) (tag : Nat) :
    Nat → List UInt8 → Except Error (List UInt8)
  | 0, _ => fail .varint
  | rounds + 1, input => do
    let (k, rest) ← key input
    if k.wireType = .groupEnd then
      if k.tag = tag then return rest else fail .groupEnd
    else
      let rest ← skip k rest
      skipGroup skip tag rounds rest

/-- Skips the value of an unknown field; `depth` levels of nesting are left. -/
def skip : Nat → Key → List UInt8 → Except Error (List UInt8)
  | 0, _, _ => fail .nesting
  | depth + 1, k, input =>
    match k.wireType with
    | .varint => do
      let (_, rest) ← varint input
      return rest
    | .fourBytes => dropBytes 4 input
    | .eightBytes => dropBytes 8 input
    | .delimited => do
      let (n, rest) ← varint input
      dropBytes n rest
    | .groupStart => skipGroup (skip depth) k.tag (input.length + 1) input
    | .groupEnd => fail .groupEnd

/-- Skips an unknown field and leaves the record as it is. -/
def ignore {α : Type} (depth : Nat) (k : Key) (a : α) : Reader α := fun input => do
  let rest ← skip depth k input
  return (a, rest)

end ContractHost.Wire
