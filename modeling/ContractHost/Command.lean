import ContractHost.Config
import ContractHost.Arguments
import ContractHost.Request
/-!
# Commands

A command is a request whose inputs have been read and found within the size limits. All inputs are read before anything
is charged or written; the first fault counts.
-/
namespace ContractHost

structure Call where
  target : Address
  method : String
  args : Bytes
  amount : Amount
  /-- The gas that the caller offers. -/
  gas : Gas
  context : Bytes
  deriving DecidableEq

structure Deployment where
  code : Bytes
  args : Bytes
  nonce : Bytes
  amount : Amount
  /-- The gas that the caller offers. -/
  gas : Gas
  deriving DecidableEq

def Deployment.address (d : Deployment) : Address :=
  Address.ofContract d.code d.args d.nonce

/-- A request with checked inputs. -/
inductive Command where
  | setRemainingGas (remaining : Gas)
  | fact (f : Fact)
  | setStorage (key value : Bytes)
  | readStorage (contract : Address) (key : Bytes)
  | removeStorage (key : Bytes)
  | balance (address : Address)
  | send (payee : Address) (amount : Amount)
  | debit (amount : Amount)
  | credit (payee : Address) (amount : Amount)
  | burn (amount : Amount)
  | identityState (address : Address)
  | identity (address : Address)
  | code (address : Address)
  | contractAddress (code args nonce : Bytes)
  | event (name : String) (args : List Bytes)
  | debug
  | call (c : Call)
  | deploy (d : Deployment)
  deriving DecidableEq

namespace Input

def require (what : String) : Option Bytes → Except HostError Bytes
  | some b => .ok b
  | none => .error (.missing what)

/-- A byte string within a limit; an absent one is empty. -/
def bytes (what : String) (bound : UInt64) (input : Option Bytes) : Except HostError Bytes := do
  let b := input.getD []
  InputLimits.check what b bound
  return b

/-- A byte string that has to be there, within a limit. -/
def requireBytes (what : String) (bound : UInt64) (input : Option Bytes) : Except HostError Bytes := do
  let b ← require what input
  InputLimits.check what b bound
  return b

def text (what : String) (bound : UInt64) (input : Option Bytes) : Except HostError String := do
  let b ← requireBytes what bound input
  match Bytes.text? b with
  | some s => return s
  | none => .error (.notText what)

def address (input : Option Bytes) : Except HostError Address := do
  match Address.ofBytes (← require "address" input) with
  | .ok a => return a
  | .error _ => .error .badAddress

/-- An address; an absent one is the frame's contract. -/
def addressOr (self : Address) : Option Bytes → Except HostError Address
  | none => .ok self
  | some b => address (some b)

/-- An amount; an absent one is zero. -/
def amount (limits : InputLimits) (input : Option Bytes) : Except HostError Amount := do
  let b ← bytes "amount" limits.amount input
  (Amount.ofBytes b).mapError .malformed

end Input

/-- Reads the inputs of a request from the contract `self`. -/
def Request.check (limits : InputLimits) (self : Address) : Request → Except HostError Command
  | .setRemainingGas remaining => .ok (.setRemainingGas remaining)
  | .fact f => .ok (.fact f)
  | .setStorage key value => do
    let key ← Input.requireBytes "storage key" limits.storageKey key
    let value ← Input.bytes "storage value" limits.storageValue value
    return .setStorage key value
  | .getStorage key => do
    let key ← Input.requireBytes "storage key" limits.storageKey key
    return .readStorage self key
  | .removeStorage key => do
    let key ← Input.requireBytes "storage key" limits.storageKey key
    return .removeStorage key
  | .readStorage contract key => do
    let contract ← Input.addressOr self contract
    let key ← Input.requireBytes "storage key" limits.storageKey key
    return .readStorage contract key
  | .balance address => do
    let address ← Input.addressOr self address
    return .balance address
  | .send payee amount => do
    let payee ← Input.address payee
    let amount ← Input.amount limits amount
    return .send payee amount
  | .debit amount => do
    let amount ← Input.amount limits amount
    return .debit amount
  | .credit payee amount => do
    let payee ← Input.address payee
    let amount ← Input.amount limits amount
    return .credit payee amount
  | .burn amount => do
    let amount ← Input.amount limits amount
    return .burn amount
  | .identityState address => do
    let address ← Input.address address
    return .identityState address
  | .identity address => do
    let address ← Input.address address
    return .identity address
  | .code address => do
    let address ← Input.address address
    return .code address
  | .contractAddress image args nonce => do
    let image ← Input.bytes "code" limits.code image
    let args ← Input.bytes "arguments" limits.args args
    let nonce ← Input.bytes "nonce" limits.text nonce
    return .contractAddress image args nonce
  | .event name args => do
    let name ← Input.text "event name" limits.text name
    let args ← Input.bytes "event arguments" limits.args args
    return .event name (Arguments.unpack args)
  | .debug message => do
    let _ ← Input.bytes "debug message" limits.text message
    return .debug
  | .call target method args amount gas context => do
    let target ← Input.address target
    let method ← Input.text "method" limits.text method
    let args ← Input.bytes "arguments" limits.args args
    let amount ← Input.amount limits amount
    let context ← Input.bytes "invocation context" limits.args context
    return .call { target, method, args, amount, gas, context }
  | .deploy image args nonce amount gas => do
    let image ← Input.requireBytes "code" limits.code image
    let args ← Input.bytes "arguments" limits.args args
    let nonce ← Input.bytes "nonce" limits.text nonce
    let amount ← Input.amount limits amount
    return .deploy { code := image, args, nonce, amount, gas }

end ContractHost
