import ContractHost.HostError
import ContractHost.ResultTree
/-!
# Requests and replies

What a running program may ask of its host, and what it is told. Byte strings of a request may be absent, which is not
the same as empty: a missing address of a balance or of a read is the program's own contract, a missing amount is
zero. Addresses are 20 bytes, amounts big-endian numbers, texts UTF-8 and argument lists packed.
-/
namespace ContractHost

/-- What a program can ask for without saying more. -/
inductive Fact where
  | gasLimit
  | gasLeft
  /-- The amount that was paid into the frame. -/
  | payment
  | blockNumber
  | blockTimestamp
  | minFeePerGas
  | blockSeed
  | networkSize
  | epoch
  | caller
  /-- The account that started the call tree. -/
  | origin
  /-- The frame's contract. -/
  | contract
  /-- The code that the frame runs. -/
  | code
  | codeDigest
  deriving DecidableEq, Repr

/-- What a program may ask of its host. -/
inductive Request where
  /-- Says how much gas the program has left by its own account. -/
  | setRemainingGas (remaining : Gas)
  | fact (f : Fact)
  | setStorage (key value : Option Bytes)
  | getStorage (key : Option Bytes)
  | removeStorage (key : Option Bytes)
  | readStorage (contract key : Option Bytes)
  | balance (address : Option Bytes)
  | send (payee amount : Option Bytes)
  /-- Takes an amount from the frame's contract. -/
  | debit (amount : Option Bytes)
  /-- Gives an amount to an address. -/
  | credit (payee amount : Option Bytes)
  | burn (amount : Option Bytes)
  | identityState (address : Option Bytes)
  | identity (address : Option Bytes)
  | code (address : Option Bytes)
  | contractAddress (code args nonce : Option Bytes)
  | event (name args : Option Bytes)
  | debug (message : Option Bytes)
  | call (target method args amount : Option Bytes) (gas : Gas) (context : Option Bytes)
  | deploy (code args nonce amount : Option Bytes) (gas : Gas)
  deriving DecidableEq

/-- What a reply carries. -/
inductive Value where
  | nothing
  /-- A byte string, which may be absent. -/
  | bytes (b : Option Bytes)
  | number (n : Int)
  deriving DecidableEq

namespace Value

/-- The bytes of a value; what is absent or no byte string has none. -/
def toBytes : Value → Bytes
  | .bytes b => b.getD []
  | _ => []

/-- The number of a value; what is no number counts as zero. -/
def toInt : Value → Int
  | .number n => n
  | _ => 0

end Value

namespace Fact

def isNumber : Fact → Bool
  | gasLimit | gasLeft | blockNumber | blockTimestamp | networkSize | epoch => true
  | _ => false

end Fact

/-- What the reply to a request carries if the request fails. -/
def Request.blank : Request → Value
  | .fact f => if f.isNumber then .number 0 else .bytes none
  | .identityState _ => .number 0
  | .getStorage _ | .readStorage _ _ | .balance _ | .identity _ | .code _ | .contractAddress _ _ _
  | .call _ _ _ _ _ _ | .deploy _ _ _ _ _ => .bytes none
  | .setRemainingGas _ | .setStorage _ _ | .removeStorage _ | .send _ _ | .debit _ | .credit _ _ | .burn _
  | .event _ _ | .debug _ => .nothing

/-- What a program is told about a request. -/
structure Reply where
  status : Status
  /-- The gas that the host charged for the request. The program is expected to count it as its own. -/
  gasUsed : Gas
  value : Value
  /-- What went wrong, if something did. -/
  error : Option String
  deriving DecidableEq

namespace Reply

def ok (value : Value) (gasUsed : UInt64) : Reply :=
  { status := .ok, gasUsed, value, error := none }

def failed (e : HostError) (blank : Value) (gasUsed : UInt64) : Reply :=
  { status := e.status, gasUsed, value := blank, error := some e.message }

/-- The reply to a request whose nested frame came to a result. The value is the encoded result; a failed frame is a
failure of the contract, which its caller may survive. -/
def nested (result : ResultTree) (gasUsed : UInt64) : Reply :=
  let value := Value.bytes (some result.toBytes)
  if result.label.success then ok value gasUsed
  else { status := .contractError, gasUsed, value, error := some result.label.error }

def isOk (r : Reply) : Bool :=
  decide (r.status = .ok)

/-- The error text, empty if there is none. -/
def errorText (r : Reply) : String :=
  r.error.getD ""

end Reply

end ContractHost
