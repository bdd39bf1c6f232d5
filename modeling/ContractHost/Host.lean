import ContractHost.Frame
/-!
# The host

A host runs call trees for accounts: it executes a method of a contract or deploys a new one, against a store. The
writes of the outermost frame reach the ledger in whole or not at all, and only if that frame succeeds.
-/
namespace ContractHost

/-- A VM with the configuration under which it is run. -/
structure Host where
  vm : Vm
  config : Config

/-- The order of an account to execute a method. -/
structure ExecuteOrder where
  contract : Address
  caller : Address
  method : String
  /-- The arguments before packing. -/
  args : List Bytes := []
  amount : Amount := 0
  gasLimit : Gas
  /-- Code to run instead of the code at the contract. -/
  code : Option Bytes := none
  context : Bytes := []
  deriving DecidableEq

/-- The order of an account to deploy a contract. -/
structure DeployOrder where
  caller : Address
  code : Bytes
  /-- The arguments before packing. -/
  args : List Bytes := []
  nonce : Bytes := []
  amount : Amount := 0
  gasLimit : Gas
  deriving DecidableEq

/-- What an account is told about its order. -/
structure Outcome where
  status : Status
  result : ResultTree
  /-- The events that have reached the ledger. -/
  events : List Event
  /-- The address of the contract that was deployed, if one was. -/
  deployed : Option Address
  deriving DecidableEq

namespace Outcome

def gasUsed (o : Outcome) : Gas :=
  o.result.label.gasUsed

def success (o : Outcome) : Bool :=
  o.result.label.success

/-- The error text, empty on success unless the program says something. -/
def error (o : Outcome) : String :=
  o.result.label.error

def output (o : Outcome) : Bytes :=
  o.result.label.output

def resultBytes (o : Outcome) : Bytes :=
  o.result.toBytes

end Outcome

/-- What an account is told about a frame that has ended. -/
def FrameOutcome.tell {W : Type} (outcome : FrameOutcome W) (events : List Event) (deployed : Option Address) :
    Outcome :=
  { status := outcome.record.label.status, result := outcome.record.result, events, deployed }

/-- What comes of an order. -/
structure Completion where
  answer : Except HostError Outcome
  /-- The store afterwards. -/
  store : Store
  /-- The record of the call tree, if there is one. -/
  record : Option CallRecord

namespace ExecuteOrder

def invocation (o : ExecuteOrder) : Invocation :=
  .call o.method (Arguments.pack o.args) o.context

def check (o : ExecuteOrder) (limits : InputLimits) : Except HostError Unit := do
  InputLimits.check "method" (Bytes.ofText o.method) limits.text
  InputLimits.check "arguments" (Arguments.pack o.args) limits.args
  InputLimits.check "invocation context" o.context limits.args
  InputLimits.check "amount" (Amount.toBytes o.amount) limits.amount

/-- The scope of the outermost frame in a world, or why it is refused. -/
def scope {W : Type} [World W] (o : ExecuteOrder) (config : Config) (store : Store) (world : W) :
    Except Refusal (Scope W) :=
  match o.code.or (store.ledger.code o.contract) with
  | none | some [] => .error .noCode
  | some (b :: code) =>
    if o.method = constructorName then .error .constructorCall
    else
      let scope := Scope.start world store config.gas o.contract o.caller (b :: code)
      (scope.receive o.caller o.amount).mapError .barred

end ExecuteOrder

namespace DeployOrder

def address (o : DeployOrder) : Address :=
  Address.ofContract o.code (Arguments.pack o.args) o.nonce

def invocation (o : DeployOrder) : Invocation :=
  .deploy (Arguments.pack o.args) o.nonce

def check (o : DeployOrder) (limits : InputLimits) : Except HostError Unit := do
  if o.code = [] then .error .emptyCode
  InputLimits.check "code" o.code limits.code
  InputLimits.check "arguments" (Arguments.pack o.args) limits.args
  InputLimits.check "nonce" o.nonce limits.text
  InputLimits.check "amount" (Amount.toBytes o.amount) limits.amount

/-- The scope of the outermost frame in a world, or why it is refused. -/
def scope {W : Type} [World W] (o : DeployOrder) (config : Config) (store : Store) (world : W) :
    Except Refusal (Scope W) :=
  match store.ledger.code o.address with
  | some _ => .error .occupied
  | none => do
    let scope := Scope.start world store config.gas o.address o.caller o.code
    let scope ← (scope.receive o.caller o.amount).mapError .barred
    return scope.installCode o.code

end DeployOrder

namespace Host

/-- A host with a configuration that was found usable. -/
def new (vm : Vm) (config : Config) : Except ConfigError Host := do
  config.validate
  return { vm, config }

def withDefaults (vm : Vm) : Host :=
  { vm, config := {} }

/-- The call stack before the outermost frame. -/
def stack (h : Host) : CallStack :=
  { maxDepth := h.config.maxCallDepth.toNat, allowReentrancy := h.config.allowReentrancy }

/-- Hands the writes of the outermost frame to the ledger if it has succeeded. -/
def finish (store : Store) (outcome : FrameOutcome Layers) (deployed : Option Address) : Completion :=
  let record := some outcome.record
  if outcome.record.success then
    let changes := outcome.world.own
    match store.apply changes with
    | .ok store => { answer := .ok (outcome.tell changes.events deployed), store, record }
    | .error e => { answer := .error (.ledger e), store, record }
  else { answer := .ok (outcome.tell [] none), store, record }

/-- What comes of an order whose outermost frame is refused. It forfeits its whole gas limit. -/
def refuse (h : Host) (store : Store) (action : Action) (why : Refusal) : Completion :=
  let record := CallRecord.refused h.config.maxArgsLength.toNat action why
  { answer := .ok { status := .contractError, result := record.result, events := [], deployed := none }
    store, record := some record }

def run (h : Host) (store : Store) (entry : Except Refusal (Scope Layers)) (i : Invocation) (amount : Nat)
    (gasLimit : UInt64) (deployed : Option Address) : Completion :=
  match entry with
  | .error why => h.refuse store (i.action amount gasLimit) why
  | .ok scope =>
    finish store (runFrame h.vm h.config h.config.maxCallDepth.toNat scope h.stack i amount gasLimit) deployed

def execute (h : Host) (store : Store) (o : ExecuteOrder) : Completion :=
  match o.check h.config.limits with
  | .error e => { answer := .error e, store, record := none }
  | .ok _ => h.run store (o.scope h.config store (Layers.ofLedger store.ledger)) o.invocation o.amount o.gasLimit none

def deploy (h : Host) (store : Store) (o : DeployOrder) : Completion :=
  match o.check h.config.limits with
  | .error e => { answer := .error e, store, record := none }
  | .ok _ =>
    h.run store (o.scope h.config store (Layers.ofLedger store.ledger)) o.invocation o.amount o.gasLimit (some o.address)

end Host

end ContractHost
