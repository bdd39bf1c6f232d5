import ContractHost.CallStack
import ContractHost.Command
import ContractHost.Config
import ContractHost.FrameRecord
import ContractHost.Scope
/-!
# Running frames

A frame plays a program: each request is checked, performed and answered, with the gas that it cost. A failed request
writes nothing, but its charge stays, and one that runs out of gas fails the frame in the end, whatever the program does
afterwards. A nested frame is run on the spot. It is recorded and its gas is charged whether or not it succeeded; its
writes are taken over only if it did.

When the program has ended, the frame has used what its program or its meter says, whichever is more.
-/
namespace ContractHost

/-- A running frame. -/
structure Frame (W : Type) where
  scope : Scope W
  meter : Meter
  stack : CallStack
  /-- The records of the nested frames, in order. -/
  children : List CallRecord := []
  /-- Whether some request ran out of gas. -/
  ranOut : Bool := false

/-- A frame that has ended. Its world is still apart from that of its caller. -/
structure FrameOutcome (W : Type) where
  world : W
  stack : CallStack
  record : CallRecord

/-- A way to run a frame in a scope: an invocation, the amount that was paid for it, and its gas limit. -/
abbrev Runner (W : Type) := Scope W → CallStack → Invocation → Amount → Gas → FrameOutcome W

/-- What comes of a command. -/
inductive Settled where
  | value (v : Value)
  /-- A nested frame was run or refused. -/
  | nested (record : CallRecord)
  deriving DecidableEq

namespace Frame

variable {W : Type}

def start (scope : Scope W) (stack : CallStack) (gasLimit : UInt64) : Frame W :=
  { scope, meter := .ofLimit gasLimit, stack }

variable [World W]

/-! ## Nested frames -/

def record (f : Frame W) (t : CallRecord) : Except HostError Settled × Frame W :=
  let (paid, meter) := f.meter.charge t.gasUsed
  let f := { f with children := f.children ++ [t], meter }
  match paid with
  | .ok _ => (.ok (.nested t), f)
  | .error e => (.error e, f)

/-- Refuses a nested frame for which there is no room, or whose amount the frame's contract cannot pay. -/
def precheck (f : Frame W) (target : Address) (amount : Nat) : Except HostError Unit := do
  f.stack.checkEnter target
  f.scope.checkFunds amount

/-- Why a nested call is refused, or its scope. Making the scope may fail in its own right. -/
def callScope (f : Frame W) (call : Call) : Except Refusal (Except HostError (Scope W)) :=
  match f.scope.code call.target with
  | none | some [] => .error .noCode
  | some (b :: code) =>
    if call.method = constructorName then .error .constructorCall
    else do
      (f.precheck call.target call.amount).mapError .barred
      return f.scope.forCall call.target (b :: code) call.amount

/-- Why a nested deployment is refused, or its scope. Making the scope may fail in its own right. -/
def deploymentScope (f : Frame W) (d : Deployment) : Except Refusal (Except HostError (Scope W)) :=
  match f.scope.code d.address with
  | some _ => .error .occupied
  | none => do
    (f.precheck d.address d.amount).mapError .barred
    return f.scope.forDeploy d.address d.code d.amount

/-- Runs a nested frame unless it is refused, with no more gas than the frame has left. A frame whose scope cannot be
made is not recorded. -/
def nest (config : Config) (run : Runner W) (f : Frame W) (entry : Except Refusal (Except HostError (Scope W)))
    (i : Invocation) (amount : Nat) (offered : UInt64) : Except HostError Settled × Frame W :=
  let gasLimit := Gas.least offered f.meter.remaining
  match entry with
  | .error why => f.record (CallRecord.refused config.maxArgsLength.toNat (i.action amount gasLimit) why)
  | .ok (.error e) => (.error e, f)
  | .ok (.ok scope) =>
    let outcome := run scope f.stack i amount gasLimit
    let scope := if outcome.record.success then f.scope.join outcome.world else f.scope
    record { f with scope, stack := outcome.stack } outcome.record

/-! ## Commands -/

def fact (f : Frame W) : Fact → Value
  | .gasLimit => .number f.meter.limit.toNat
  | .gasLeft => .number f.meter.remaining.toNat
  | .payment => .bytes (some (Amount.toBytes f.scope.own.paid))
  | .blockNumber => .number f.scope.chain.blockNumber.toNat
  | .blockTimestamp => .number f.scope.chain.blockTimestamp.toInt
  | .minFeePerGas => .bytes (some (Amount.toBytes f.scope.chain.minFeePerGas))
  | .blockSeed => .bytes (some f.scope.chain.blockSeed)
  | .networkSize => .number f.scope.chain.networkSize.toNat
  | .epoch => .number f.scope.chain.epoch.toNat
  | .caller => .bytes (some f.scope.own.caller.bytes)
  | .origin => .bytes (some f.scope.origin.bytes)
  | .contract => .bytes (some f.scope.own.contract.bytes)
  | .code => .bytes (some f.scope.own.code)
  | .codeDigest => .bytes (some (Digest.of f.scope.own.code).bytes)

def give (f : Frame W) (v : Value) : Except HostError Settled × Frame W :=
  (.ok (.value v), f)

def giveFound (f : Frame W) (found : Except HostError Value) : Except HostError Settled × Frame W :=
  (found.map .value, f)

/-- Settles a command that writes: the frame goes on in the scope after it if there is one. -/
def moveTo (f : Frame W) : Except HostError (Scope W) × Meter → Except HostError Settled × Frame W
  | (.ok scope, meter) => (.ok (.value .nothing), { f with scope, meter })
  | (.error e, meter) => (.error e, { f with meter })

/-- Performs a command. -/
def perform (config : Config) (run : Runner W) (f : Frame W) : Command → Except HostError Settled × Frame W
  | .setRemainingGas remaining => give { f with meter := f.meter.setRemaining remaining } .nothing
  | .fact x => f.give (f.fact x)
  | .setStorage key value => f.moveTo (f.scope.setStorage f.meter key value)
  | .readStorage contract key =>
    let (found, meter) := f.scope.readStorage f.meter contract key
    giveFound { f with meter } (found.map .bytes)
  | .removeStorage key => f.moveTo (f.scope.removeStorage f.meter key)
  | .balance a => f.give (.bytes (some (Amount.toBytes (f.scope.balance a))))
  | .send payee amount => f.moveTo (f.scope.send f.meter payee amount)
  | .debit amount => f.moveTo (f.scope.debit amount, f.meter)
  | .credit payee amount => f.moveTo (.ok (f.scope.credit payee amount), f.meter)
  | .burn amount => f.moveTo (f.scope.burn amount, f.meter)
  | .identityState a => f.giveFound ((f.scope.store.identityState a).map fun state => .number state.toNat)
  | .identity a => f.giveFound ((f.scope.store.identity a).map .bytes)
  | .code a => f.give (.bytes (f.scope.code a))
  | .contractAddress code args nonce => f.give (.bytes (some (Address.ofContract code args nonce).bytes))
  | .event name args => f.moveTo (f.scope.emit f.meter name args)
  | .debug => f.give .nothing
  | .call call => f.nest config run (f.callScope call) (.call call.method call.args call.context) call.amount call.gas
  | .deploy d => f.nest config run (f.deploymentScope d) (.deploy d.args d.nonce) d.amount d.gas

/-! ## Requests -/

/-- The exchange about a request that was settled, and the frame that goes on with it. The frame keeps in mind whether
it ran out of gas. -/
def exchange (f : Frame W) (request : Request) : Except HostError Settled × Frame W → Exchange × Frame W
  | (settled, after) =>
    let gasUsed := Gas.minus after.meter.consumed f.meter.consumed
    match settled with
    | .ok (.value v) => ({ request, reply := .ok v gasUsed, nested := false }, after)
    | .ok (.nested t) => ({ request, reply := .nested t.result gasUsed, nested := true }, after)
    | .error e =>
      ({ request, reply := .failed e request.blank gasUsed, nested := false },
       { after with ranOut := after.ranOut || decide (e.status = .outOfGas) })

/-- Answers a request. -/
def answer (config : Config) (run : Runner W) (f : Frame W) (request : Request) : Exchange × Frame W :=
  f.exchange request <| match request.check config.limits f.scope.own.contract with
    | .ok command => f.perform config run command
    | .error e => (.error e, f)

/-- Plays a program to its end. -/
def play {α : Type} (config : Config) (run : Runner W) : Program α → Frame W → List Exchange × Ending α × Frame W
  | .done result, f => ([], .done result, f)
  | .crash reason, f => ([], .crash reason, f)
  | .ask request next, f =>
    let (x, f) := f.answer config run request
    let (xs, ending, f) := play config run (next x.reply) f
    (x :: xs, ending, f)

/-! ## Ends of frames -/

/-- The gas that a frame has used by its program's or its meter's account. -/
def reported (f : Frame W) (output : Output) : Gas :=
  Gas.greatest output.gasUsed f.meter.consumed

def isOut (f : Frame W) (gasLimit : UInt64) (ending : Ending Output) : Bool :=
  let output := ending.output gasLimit
  decide (output.status = .outOfGas) || (!ending.isCrash && f.ranOut) || decide (gasLimit < f.reported output)

/-- The record of a frame that has ended, without its passage. A frame out of gas has used its whole limit. -/
def conclude (f : Frame W) (bound : Nat) (action : Action) (ending : Ending Output) : FrameResult × Status :=
  let output := ending.output action.gasLimit
  let out := f.isOut action.gasLimit ending
  let status := if out then .outOfGas else output.status
  let gasUsed := if out then action.gasLimit else f.reported output
  let report := Report.decode status output.record
  ({ action := action.truncate bound, success := report.success, error := report.error, gasUsed
     output := report.output
     remaining := f.scope.chain.minFeePerGas * (Gas.minus action.gasLimit gasUsed).toNat },
   if report.success then .ok else if status = .ok then .contractError else status)

end Frame

def FrameOutcome.refused {W : Type} (config : Config) (scope : Scope W) (stack : CallStack) (action : Action)
    (e : HostError) : FrameOutcome W :=
  { world := scope.world, stack, record := CallRecord.refused config.maxArgsLength.toNat action (.barred e) }

/-- Runs a frame that has entered the stack, and the frames below it by `run`. It leaves the stack as it was. -/
def runEntered {W : Type} [World W] (vm : Vm) (config : Config) (run : Runner W) (entered : CallStack) : Runner W :=
  fun scope stack i amount gasLimit =>
    let (exchanges, ending, f) :=
      Frame.play config run (vm.program i scope.own.code gasLimit) (.start scope entered gasLimit)
    let (result, status) := f.conclude config.maxArgsLength.toNat (i.action amount gasLimit) ending
    let passage : Passage :=
      { contract := scope.own.contract, caller := scope.own.caller, invocation := i, code := scope.own.code
        exchanges, ending }
    { world := f.scope.world, stack := f.stack.unwindTo stack.depth
      record := .node { result, status, passage := some passage } f.children }

/-- Runs a frame on a stack that has room for `room` more frames. -/
def runFrame {W : Type} [World W] (vm : Vm) (config : Config) : Nat → Runner W
  | 0 => fun scope stack i amount gasLimit =>
    .refused config scope stack (i.action amount gasLimit) (.callDepth stack.depth)
  | room + 1 => fun scope stack i amount gasLimit =>
    match stack.enter scope.own.contract scope.own.caller amount with
    | .error e => .refused config scope stack (i.action amount gasLimit) e
    | .ok entered => runEntered vm config (runFrame vm config room) entered scope stack i amount gasLimit

end ContractHost
