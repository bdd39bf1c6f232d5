import ContractHost.Amount
import ContractHost.Wire.Records
/-!
# Actions
-/
namespace ContractHost

inductive ActionKind where
  | call
  | transfer
  | deploy
  deriving DecidableEq, Repr

namespace ActionKind

def number : ActionKind → UInt32
  | call => 1
  | transfer => 2
  | deploy => 3

def ofNumber (n : UInt32) : Except FormatError ActionKind :=
  if n = 1 then .ok call
  else if n = 2 then .ok transfer
  else if n = 3 then .ok deploy
  else .error (.actionKind n)

@[simp] theorem ofNumber_number (k : ActionKind) : ofNumber k.number = .ok k := by
  cases k <;> rfl

end ActionKind

/-- What a frame is asked to do. -/
structure Action where
  kind : ActionKind
  amount : Amount
  /-- The called method, empty for deployments and transfers. -/
  method : String
  /-- Packed arguments. -/
  args : Bytes
  gasLimit : UInt64
  deriving DecidableEq

namespace Action

def call (method : String) (args : List UInt8) (amount : Nat) (gasLimit : UInt64) : Action :=
  { kind := .call, amount, method, args, gasLimit }

def deploy (args : List UInt8) (amount : Nat) (gasLimit : UInt64) : Action :=
  { kind := .deploy, amount, method := "", args, gasLimit }

def toRecord (a : Action) : Wire.ActionRecord :=
  { kind := a.kind.number, amount := Amount.toBytes a.amount, method := a.method, args := a.args,
    gasLimit := a.gasLimit }

def ofRecord (r : Wire.ActionRecord) : Except FormatError Action := do
  let kind ← ActionKind.ofNumber r.kind
  let amount ← Amount.ofBytes r.amount
  return { kind, amount, method := r.method, args := r.args, gasLimit := r.gasLimit }

def toBytes (a : Action) : Bytes :=
  Wire.putAction a.toRecord

end Action

end ContractHost
