import ContractHost.Address
import ContractHost.Amount
import ContractHost.Gas
/-!
# Why the host refuses something

The causes for which a request of running code, an entry into a frame or a whole invocation fails, the outcome class of
each, and the one place with their wording.
-/
namespace ContractHost

/-- How a request or a frame ended. -/
inductive Status where
  | ok
  /-- The contract failed; its caller may go on. -/
  | contractError
  | outOfGas
  /-- The host itself failed. -/
  | hostFault
  deriving DecidableEq, Repr

namespace Status

/-- The text of a status, empty for success. -/
def text : Status → String
  | ok => ""
  | contractError => "contract error"
  | outOfGas => "out of gas"
  | hostFault => "host fault"

end Status

/-! ## Faults of a ledger -/

inductive LedgerError where
  /-- There is no snapshot. -/
  | noSnapshot
  /-- The snapshot is no JSON text of a ledger. -/
  | badSnapshot
  /-- A byte string in the snapshot is not hexadecimal. -/
  | hex (cause : Hex.Error)
  /-- The ledger refuses the changes. -/
  | rejected (reason : String)
  deriving DecidableEq, Repr

def LedgerError.message : LedgerError → String
  | .noSnapshot => "IO error: no snapshot"
  | .badSnapshot => "Deserialization error: malformed snapshot"
  | .hex cause => "Deserialization error: " ++ cause.message
  | .rejected reason => "Ledger rejected changes: " ++ reason

/-! ## Failures of requests -/

/-- Why the host refuses something. -/
inductive HostError where
  /-- A charge goes beyond the limit. -/
  | outOfGas (used limit : Gas)
  /-- A balance does not cover an amount. -/
  | insufficientFunds (required available : Amount)
  /-- An address has not 20 bytes. -/
  | badAddress
  /-- An input is absent. -/
  | missing (what : String)
  /-- An input is longer than its limit. -/
  | tooLong (what : String) (length bound : Nat)
  /-- An input is not UTF-8. -/
  | notText (what : String)
  /-- An input is not a value of its type. -/
  | malformed (cause : FormatError)
  /-- A deployment has no code. -/
  | emptyCode
  /-- The call stack is full. -/
  | callDepth (depth : Nat)
  /-- A contract is entered again while it runs. -/
  | reentrancy (contract : Address)
  /-- There is no frame to leave. -/
  | emptyStack
  /-- The host broke off. -/
  | broken (reason : String)
  /-- The ledger failed. -/
  | ledger (cause : LedgerError)
  deriving DecidableEq

namespace HostError

/-- The outcome class of a failure. -/
def status : HostError → Status
  | .outOfGas _ _ => .outOfGas
  | .emptyStack | .broken _ | .ledger _ => .hostFault
  | _ => .contractError

def message : HostError → String
  | .outOfGas used limit => "Out of gas: used " ++ toString used.toNat ++ ", limit " ++ toString limit.toNat
  | .insufficientFunds required available =>
    "Insufficient funds: required " ++ Amount.text required ++ ", available " ++ Amount.text available
  | .badAddress => "invalid address"
  | .missing what => "Invalid input: missing " ++ what
  | .tooLong what length bound =>
    "Invalid input: " ++ what ++ " too long: " ++ toString length ++ " > " ++ toString bound
  | .notText what => "Invalid input: " ++ what ++ " is not valid UTF-8"
  | .malformed cause => "Invalid input: " ++ cause.message
  | .emptyCode => "Invalid input: code is empty"
  | .callDepth depth => "Call depth exceeded: " ++ toString depth
  | .reentrancy contract =>
    "Reentrancy violation: contract " ++ contract.hexText ++ " is already in call stack"
  | .emptyStack => "Host fault: call stack is empty"
  | .broken reason => "Host fault: " ++ reason
  | .ledger cause => "Storage error: " ++ cause.message

/-- The reason of something that broke off without a text. -/
def unknown : String :=
  "unknown panic"

theorem status_ne_ok (e : HostError) : e.status ≠ .ok := by
  cases e <;> nofun

end HostError

/-! ## Refused frames -/

def constructorName : String :=
  "deploy"

/-- Why a frame is not started. -/
inductive Refusal where
  /-- There is no code at the called address. -/
  | noCode
  /-- A constructor is called like a method. -/
  | constructorCall
  /-- There is a contract already where one is to be deployed. -/
  | occupied
  /-- The call stack or the funds do not allow it. -/
  | barred (cause : HostError)
  deriving DecidableEq

def Refusal.message : Refusal → String
  | .noCode => "no code at address"
  | .constructorCall => "direct call to " ++ constructorName ++ " is forbidden"
  | .occupied => "contract already exists"
  | .barred cause => cause.message

end ContractHost
