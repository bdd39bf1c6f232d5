import ContractHost.HostError
/-!
# The call stack

The frames that are active in one call tree, with a count of the active frames of every contract. The stack bounds the
depth of calls and may forbid that a contract is entered while it runs.
-/
namespace ContractHost

structure CallFrame where
  contract : Address
  caller : Address
  /-- What was paid into the frame. -/
  value : Amount
  /-- Zero for the root frame. -/
  depth : Nat
  deriving DecidableEq

/-- The active frames of a call tree. -/
structure CallStack where
  /-- The frames, innermost first. -/
  frames : List CallFrame := []
  /-- The number of active frames of every contract that has one. -/
  active : OrderedMap Address Nat := .empty
  maxDepth : Nat := 64
  allowReentrancy : Bool := true
  deriving DecidableEq

namespace CallStack

def depth (s : CallStack) : Nat :=
  s.frames.length

def contains (s : CallStack) (contract : Address) : Bool :=
  (s.active.get? contract).isSome

def current? (s : CallStack) : Option CallFrame :=
  s.frames.head?

def root? (s : CallStack) : Option CallFrame :=
  s.frames.getLast?

/-- Whether a contract can be entered now. -/
def checkEnter (s : CallStack) (contract : Address) : Except HostError Unit :=
  if s.maxDepth ≤ s.depth then .error (.callDepth s.depth)
  else if !s.allowReentrancy && s.contains contract then .error (.reentrancy contract)
  else .ok ()

def push (s : CallStack) (contract caller : Address) (value : Nat) : CallStack :=
  { s with
    frames := { contract, caller, value, depth := s.depth } :: s.frames
    active := s.active.insert contract ((s.active.get? contract).getD 0 + 1) }

def enter (s : CallStack) (contract caller : Address) (value : Nat) : Except HostError CallStack := do
  s.checkEnter contract
  return s.push contract caller value

/-- The counts after a frame of a contract is left. -/
def release (active : OrderedMap Address Nat) (contract : Address) : OrderedMap Address Nat :=
  match active.get? contract with
  | none => active
  | some n => if n ≤ 1 then active.erase contract else active.insert contract (n - 1)

def exit (s : CallStack) : Except HostError (CallFrame × CallStack) :=
  match s.frames with
  | [] => .error .emptyStack
  | f :: frames => .ok (f, { s with frames, active := release s.active f.contract })

/-- The stack without its `n` innermost frames. -/
def leave : Nat → CallStack → CallStack
  | 0, s => s
  | n + 1, s =>
    match s.exit with
    | .ok (_, s) => leave n s
    | .error _ => s

def unwindTo (s : CallStack) (depth : Nat) : CallStack :=
  leave (s.depth - depth) s

end CallStack

end ContractHost
