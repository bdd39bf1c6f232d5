import ContractHost.Script.Session
/-!
# The script VM

A contract VM for code that is a script. A method is the section of its name; the constructor is the section with the
name that is reserved for it, and a script without one has an empty constructor.
-/
namespace ContractHost.Script

namespace Session

/-- Carries out an instruction. -/
def perform (s : Setting) : Instruction → Session Unit
  | .store key value => do
    let key ← read fun p => operand s p key
    let value ← read fun p => operand s p value
    discard (demand s (.setStorage (some key) (some value)))
  | .load key => do
    let key ← read fun p => operand s p key
    fetch s (.getStorage (some key))
  | .remove key => do
    let key ← read fun p => operand s p key
    discard (demand s (.removeStorage (some key)))
  | .read contract key => do
    let contract ← read fun p => address s p contract
    let key ← read fun p => operand s p key
    fetch s (.readStorage (some contract) (some key))
  | .balance none => fetch s (.balance none)
  | .balance (some owner) => do
    let owner ← read fun p => address s p owner
    fetch s (.balance (some owner))
  | .send payee paid => do
    let payee ← read fun p => address s p payee
    let paid ← read fun p => amount s p paid
    discard (demand s (.send (some payee) (some paid)))
  | .burn burnt => do
    let burnt ← read fun p => amount s p burnt
    discard (demand s (.burn (some burnt)))
  | .emit name args => do
    let args ← read fun p => operands s p args
    discard (demand s (.event (some (Bytes.ofText name)) (some (Arguments.pack args))))
  | .debug words => discard (demand s (.debug (some (Bytes.ofText (" ".intercalate words)))))
  | .call strict target method gas args => do
    let target ← read fun p => address s p target
    let gas ← read fun _ => gasFigure "limit" gas
    let (paid, args) ← read fun p => amountAndArgs s p args
    let reply ← query s
      (.call (some target) (some (Bytes.ofText method)) (some (Arguments.pack args)) (some paid) gas none)
    absorbNested s strict reply
  | .deploy nonce gas args => do
    let nonce ← read fun p => operand s p nonce
    let gas ← read fun _ => gasFigure "limit" gas
    let (paid, args) ← read fun p => amountAndArgs s p args
    let args := Arguments.pack args
    let code ← demand s (.fact .code)
    let reply ← query s (.deploy (some code.toBytes) (some args) (some nonce) (some paid) gas)
    absorbNested s true reply
    fetch s (.contractAddress (some code.toBytes) (some args) (some nonce))
  | .identityState owner => do
    let owner ← read fun p => address s p owner
    let state ← demand s (.identityState (some owner))
    remember [UInt8.ofNat state.toInt.toNat]
  | .caller => fetch s (.fact .caller)
  | .origin => fetch s (.fact .origin)
  | .self => fetch s (.fact .contract)
  | .pay => fetch s (.fact .payment)
  | .block => do
    let number ← demand s (.fact .blockNumber)
    remember (Bytes.ofText (Decimal.integerText number.toInt))
  | .spend gas => do
    let gas ← read fun _ => gasFigure "amount" gas
    charge s gas
  | .require left right => do
    let l ← read fun p => operand s p left
    let r ← read fun p => operand s p right
    if l ≠ r then throw (.fail ("requirement failed: " ++ left ++ " == " ++ right))
  | .fail words => throw (.fail (" ".intercalate words))
  | .panic => ExceptT.lift (StateT.lift (.crash (some "script panic")))
  | .ret none => do throw (.ret (← get).last)
  | .ret (some value) => do
    let value ← read fun p => operand s p value
    throw (.ret value)

def step (s : Setting) (line : List Char) : Session Unit := do
  charge s s.cost
  match Instruction.ofLine? line with
  | some i => perform s i
  | none => throw (.fail ("invalid instruction: " ++ String.ofList line))

def runLines (s : Setting) : List (List Char) → Session Unit
  | [] => return ()
  | line :: rest => do
    step s line
    runLines s rest

end Session

/-- What runs for a method of a script; `required` says whether the script has to have it. -/
def start (s : Setting) (code : List UInt8) (method : String) (required : Bool) : Session Unit :=
  match Bytes.text? code with
  | none => throw (.fail "code is not a valid script")
  | some source =>
    match lookUp source.toList method.toList with
    | some body => Session.runLines s body
    | none => if required then throw (.fail ("unknown method " ++ method)) else return ()

/-- The output of a script that stopped. It has used at most its limit, and all of it if it is out of gas. -/
def output (s : Setting) (p : Progress) : Halt → Output
  | .ret output => Output.report (Gas.least p.used s.gasLimit) .ok output ""
  | .fail error => Output.report (Gas.least p.used s.gasLimit) .contractError [] error
  | .outOfGas => Output.report s.gasLimit .outOfGas [] Status.outOfGas.text
  | .fault error => Output.report (Gas.least p.used s.gasLimit) .hostFault [] error

/-- The program of a session. A script that runs to its end returns nothing. -/
def program (s : Setting) (session : Session Unit) : Program Output := do
  match ← (session.run).run {} with
  | (.ok _, p) => return output s p (.ret [])
  | (.error halt, p) => return output s p halt

/-- The VM for scripts whose instructions have a cost. -/
def vm (cost : UInt64) : Vm where
  execute code method args _ gasLimit :=
    let s : Setting := { args := Arguments.unpack args, cost, gasLimit }
    program s (start s code method true)
  deploy code args _ gasLimit :=
    let s : Setting := { args := Arguments.unpack args, cost, gasLimit }
    program s (start s code constructorName false)

end ContractHost.Script
