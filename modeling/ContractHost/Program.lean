import ContractHost.Action
import ContractHost.Report
import ContractHost.Request
/-!
# Programs

A program is what a contract VM does with one frame: it asks its host for something and goes on with the reply, until
it comes to a result or breaks off. Every program asks finitely often, whatever it is told. Programs can be put one
after the other.
-/
namespace ContractHost

/-- A course of requests that depends on the replies. -/
inductive Program (α : Type) where
  | done (result : α)
  /-- The program breaks off, perhaps with a text. -/
  | crash (reason : Option String)
  /-- The program asks for something and goes on with the reply. -/
  | ask (request : Request) (next : Reply → Program α)

namespace Program

variable {α β γ : Type}

def bind : Program α → (α → Program β) → Program β
  | done a, f => f a
  | crash reason, _ => crash reason
  | ask request next, f => ask request fun reply => (next reply).bind f

instance : Monad Program where
  pure := done
  bind := bind

theorem bind_done (p : Program α) : p.bind done = p := by
  induction p with
  | done a => rfl
  | crash reason => rfl
  | ask request next ih => simp only [bind, ih]

theorem bind_assoc (p : Program α) (f : α → Program β) (g : β → Program γ) :
    (p.bind f).bind g = p.bind fun a => (f a).bind g := by
  induction p with
  | done a => rfl
  | crash reason => rfl
  | ask request next ih => simp only [bind, ih]

def request (r : Request) : Program Reply :=
  ask r done

end Program

/-- How a program ended. -/
inductive Ending (α : Type) where
  | done (result : α)
  | crash (reason : Option String)
  deriving DecidableEq

namespace Ending

def isCrash {α : Type} : Ending α → Bool
  | done _ => false
  | crash _ => true

/-- The output that counts for an ending. A program that breaks off forfeits the whole budget. -/
def output (gasLimit : UInt64) : Ending Output → Output
  | done output => output
  | crash reason => Output.report gasLimit .hostFault [] (HostError.broken (reason.getD HostError.unknown)).message

end Ending

/-- What a frame is to run. -/
inductive Invocation where
  | call (method : String) (args context : Bytes)
  | deploy (args nonce : Bytes)
  deriving DecidableEq

/-- What a frame is asked to do, with what is paid for it. -/
def Invocation.action (i : Invocation) (amount : Nat) (gasLimit : UInt64) : Action :=
  match i with
  | .call method args _ => Action.call method args amount gasLimit
  | .deploy args _ => Action.deploy args amount gasLimit

/-- A contract VM. -/
structure Vm where
  /-- Runs a method of a contract's code. -/
  execute (code : Bytes) (method : String) (args context : Bytes) (gasLimit : UInt64) : Program Output
  /-- Runs the constructor of a contract's code. -/
  deploy (code args nonce : Bytes) (gasLimit : UInt64) : Program Output

/-- The program that a VM runs for an invocation. -/
def Vm.program (vm : Vm) (i : Invocation) (code : List UInt8) (gasLimit : UInt64) : Program Output :=
  match i with
  | .call method args context => vm.execute code method args context gasLimit
  | .deploy args nonce => vm.deploy code args nonce gasLimit

end ContractHost
