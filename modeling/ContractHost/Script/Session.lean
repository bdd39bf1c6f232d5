import ContractHost.Arguments
import ContractHost.Program
import ContractHost.Script.Source
/-!
# Sessions of a script

A session carries out the instructions of a script one after the other. It keeps its own account of the gas that is
used: every instruction has a cost, and whatever the host charges is added. Before each request the host is told how
much is left by this account.
-/
namespace ContractHost.Script

/-- What stays the same while a script runs. -/
structure Setting where
  /-- The arguments of the call. -/
  args : List Bytes
  /-- The cost of an instruction. -/
  cost : Gas
  gasLimit : Gas
  deriving DecidableEq

/-- What changes while a script runs. -/
structure Progress where
  /-- The gas that is used by the script's account. -/
  used : Gas := 0
  /-- The result of the last instruction that had one. -/
  last : Bytes := []
  deriving DecidableEq

/-- Why a script stops. -/
inductive Halt where
  | ret (output : Bytes)
  | fail (error : String)
  | outOfGas
  /-- The host failed. -/
  | fault (error : String)
  deriving DecidableEq

/-- A part of a script's run. It keeps its progress when the script stops. -/
abbrev Session (α : Type) := ExceptT Halt (StateT Progress Program) α

/-! ## Operands -/

/-- The bytes of an operand: the last result, an argument of the call, hexadecimal digits, nothing, or the operand
itself as a text. -/
def operand (s : Setting) (p : Progress) (token : String) : Except Halt Bytes :=
  match token.toList with
  | ['$', 'l', 'a', 's', 't'] => .ok p.last
  | '$' :: index =>
    match Decimal.word? 64 index with
    | none => .error (.fail ("invalid operand " ++ token))
    | some i =>
      match s.args[i]? with
      | some arg => .ok arg
      | none => .error (.fail ("missing argument " ++ Decimal.text i))
  | '0' :: 'x' :: digits =>
    match Hex.decode (String.ofList digits) with
    | .ok b => .ok b
    | .error _ => .error (.fail ("invalid hex " ++ token))
  | ['_'] => .ok []
  | _ => .ok (Bytes.ofText token)

def operands (s : Setting) (p : Progress) (tokens : List String) : Except Halt (List Bytes) :=
  tokens.mapM (operand s p)

/-- The bytes of an address operand, which may also be the text of an address. -/
def address (s : Setting) (p : Progress) (token : String) : Except Halt Bytes :=
  match token.toList with
  | 'w' :: 'h' :: '1' :: _ =>
    match Address.ofText token with
    | .ok a => .ok a.bytes
    | .error e => .error (.fail e.message)
  | _ => operand s p token

/-- The bytes of an amount operand, which may also be a decimal number. -/
def amount (s : Setting) (p : Progress) (token : String) : Except Halt Bytes :=
  if token ≠ "" ∧ token.toList.all fun c => '0' ≤ c ∧ c ≤ '9' then
    match Amount.ofText token with
    | .ok a => .ok (Amount.toBytes a)
    | .error e => .error (.fail e.message)
  else operand s p token

/-- A gas figure; `what` says what it is for. -/
def gasFigure (what token : String) : Except Halt Gas :=
  match Decimal.word? 64 token.toList with
  | some n => .ok (UInt64.ofNat n)
  | none => .error (.fail ("invalid gas " ++ what ++ " " ++ token))

/-- The amount, given in front as `value=`, and the arguments of a call or a deployment. -/
def amountAndArgs (s : Setting) (p : Progress) (tokens : List String) : Except Halt (Bytes × List Bytes) :=
  match tokens with
  | [] => .ok ([], [])
  | first :: rest =>
    match first.toList with
    | 'v' :: 'a' :: 'l' :: 'u' :: 'e' :: '=' :: paid => do
      let paid ← amount s p (String.ofList paid)
      let args ← operands s p rest
      return (paid, args)
    | _ => do
      let args ← operands s p (first :: rest)
      return ([], args)

/-! ## Gas and requests -/

namespace Session

def read {α : Type} (f : Progress → Except Halt α) : Session α := do
  match f (← get) with
  | .ok a => return a
  | .error halt => throw halt

def remember (b : List UInt8) : Session Unit :=
  modify fun p => { p with last := b }

def charge (s : Setting) (gas : UInt64) : Session Unit := do
  modify fun p => { p with used := Gas.plus p.used gas }
  if s.gasLimit < (← get).used then throw .outOfGas

/-- Adds what the host has charged, and goes on with the value of the reply if there is one. -/
def absorb (s : Setting) (reply : Reply) : Session Value := do
  charge s reply.gasUsed
  match reply.status with
  | .ok => return reply.value
  | .outOfGas => throw .outOfGas
  | .contractError => throw (.fail reply.errorText)
  | .hostFault => throw (.fault reply.errorText)

def request (r : Request) : Session Reply :=
  ExceptT.lift (StateT.lift (Program.request r))

def sync (s : Setting) : Session Unit := do
  let p ← get
  let reply ← request (.setRemainingGas (Gas.minus s.gasLimit p.used))
  discard (absorb s reply)

/-- Asks the host for something after telling it how much gas is left. -/
def query (s : Setting) (r : Request) : Session Reply := do
  sync s
  request r

def demand (s : Setting) (r : Request) : Session Value := do
  let reply ← query s r
  absorb s reply

/-- Asks the host for bytes and remembers them; what is absent counts as empty. -/
def fetch (s : Setting) (r : Request) : Session Unit := do
  let value ← demand s r
  remember value.toBytes

/-- Takes in the reply to a nested call and remembers the output of the called frame. A call that failed on its own
stops the script only if it is strict. -/
def absorbNested (s : Setting) (strict : Bool) (reply : Reply) : Session Unit := do
  if !strict && reply.status = .contractError then charge s reply.gasUsed
  else discard (absorb s reply)
  match ResultTree.ofBytes reply.value.toBytes with
  | .ok t => remember t.label.output
  | .error _ => remember []

end Session

end ContractHost.Script
