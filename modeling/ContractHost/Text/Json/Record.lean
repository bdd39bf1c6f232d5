import ContractHost.Text.Json
/-!
# Records in JSON

A record is written as an object. It is read from an object, where unknown members are passed over and a known one may
stand only once, or from a list with the fields in their order.
-/
namespace ContractHost.Json

/-- The value of a member. It may stand only once. -/
def member? (name : String) (ms : List (String × Json)) : Option (Option Json) :=
  match ms.filter fun m => m.1 = name with
  | [] => some none
  | [m] => some (some m.2)
  | _ => none

/-- Which lists may stand for a record. -/
inductive Positions where
  /-- A list of all fields. -/
  | exact
  /-- A list that may break off before a field that has a default. -/
  | upTo
  /-- The same, and elements after the last field are passed over. -/
  | any
  deriving DecidableEq

/-- Whether a list of `found` elements may stand for a record of `n` fields. -/
def Positions.allow (p : Positions) (found n : Nat) : Bool :=
  match p with
  | .exact => found == n
  | .upTo => found ≤ n
  | .any => true

/-- The fields of a record in the order of their names. -/
def fields? (p : Positions) (names : List String) : Json → Option (List (Option Json))
  | .object ms => names.mapM fun name => member? name ms
  | .list xs =>
    if p.allow xs.length names.length then
      some ((xs.take names.length).map some ++ List.replicate (names.length - xs.length) none)
    else none
  | _ => none

def need {α : Type} (read : Json → Option α) : Option Json → Option α
  | some j => read j
  | none => none

def orElse {α : Type} (fallback : α) (read : Json → Option α) : Option Json → Option α
  | some j => read j
  | none => some fallback

/-- Reads a field that may be `null` or absent. -/
def optional {α : Type} (read : Json → Option α) : Option Json → Option (Option α)
  | none => some none
  | some .null => some none
  | some j => (read j).map some

def asText : Json → Option String
  | .text s => some s
  | _ => none

def asBool : Json → Option Bool
  | .bool b => some b
  | _ => none

def asNat (bound : Nat) : Json → Option Nat
  | .int (.ofNat n) => if n ≤ bound then some n else none
  | _ => none

def asWord (j : Json) : Option UInt64 :=
  (asNat 0xFFFFFFFFFFFFFFFF j).map UInt64.ofNat

def asList {α : Type} (read : Json → Option α) : Json → Option (List α)
  | .list xs => xs.mapM read
  | _ => none

def asBytes : Json → Option Bytes :=
  asList fun j => (asNat 255 j).map UInt8.ofNat

def ofNat (n : Nat) : Json :=
  .int (.ofNat n)

def ofBytes (b : List UInt8) : Json :=
  .list (b.map fun x => ofNat x.toNat)

end ContractHost.Json
