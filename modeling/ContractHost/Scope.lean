import ContractHost.Gas.Meter
import ContractHost.World
/-!
# Scopes

A scope is what a frame can reach: its world, the facts of the store that do not change during a call tree, and the
roles of its contract and of those that wait for it.

Every operation either fails or gives the scope after it, so a failed one has written nothing. Operations with a price
are charged before they write, and a read is charged when the value is known.
-/
namespace ContractHost

/-- Charges a price and goes on with a result if it could be paid. -/
def Meter.spend {α : Type} (m : Meter) (price : UInt64) (result : Except HostError α) :
    Except HostError α × Meter :=
  match m.charge price with
  | (.ok _, m) => (result, m)
  | (.error e, m) => (.error e, m)

/-- Who runs in a frame, for whom and for what. -/
structure Role where
  contract : Address
  caller : Address
  code : Bytes
  /-- What was paid into the frame. -/
  paid : Amount := 0
  deriving DecidableEq

/-- What a frame can reach. -/
structure Scope (W : Type) where
  world : W
  /-- The store under the call tree, for its facts about the chain and its identities. -/
  store : Store
  schedule : GasSchedule
  own : Role
  /-- The roles of the waiting callers, innermost first. -/
  callers : List Role := []

namespace Scope

variable {W : Type}

/-- The scope of a frame that an account starts in a world. -/
def start (world : W) (store : Store) (schedule : GasSchedule) (contract caller : Address) (code : List UInt8) :
    Scope W :=
  { world, store, schedule, own := { contract, caller, code } }

/-- The scope of a frame that an account starts and that writes to an overlay. -/
def root (store : Store) (schedule : GasSchedule) (contract caller : Address) (code : List UInt8) :
    Scope Layers :=
  start (.ofLedger store.ledger) store schedule contract caller code

def chain (s : Scope W) : Chain :=
  s.store.ledger.chain

/-- The account that started the call tree. -/
def origin (s : Scope W) : Address :=
  (s.callers.getLast?.getD s.own).caller

variable [World W]

/-! ## Look-ups -/

def storage (s : Scope W) (contract : Address) (key : List UInt8) : Option Bytes :=
  World.storage s.world contract key

def balance (s : Scope W) (a : Address) : Amount :=
  World.balance s.world a

def code (s : Scope W) (a : Address) : Option Bytes :=
  World.code s.world a

def ownBalance (s : Scope W) : Amount :=
  s.balance s.own.contract

/-! ## Writing -/

def write (s : Scope W) (x : Write) : Scope W :=
  { s with world := World.write s.world x }

def installCode (s : Scope W) (code : List UInt8) : Scope W :=
  s.write (.setCode s.own.contract code)

/-! ## Storage -/

def setStorage (s : Scope W) (m : Meter) (key value : List UInt8) : Except HostError (Scope W) × Meter :=
  m.spend (s.schedule.write key.length) (.ok (s.write (.setStorage s.own.contract key value)))

def removeStorage (s : Scope W) (m : Meter) (key : List UInt8) : Except HostError (Scope W) × Meter :=
  m.spend (s.schedule.remove key.length) (.ok (s.write (.removeStorage s.own.contract key)))

def readStorage (s : Scope W) (m : Meter) (contract : Address) (key : List UInt8) :
    Except HostError (Option Bytes) × Meter :=
  let value := s.storage contract key
  m.spend (s.schedule.read (value.getD []).length) (.ok value)

/-! ## Balances -/

/-- What an address keeps after paying an amount. -/
def rest (s : Scope W) (a : Address) (amount : Nat) : Except HostError Amount :=
  let available := s.balance a
  match Amount.minus? available amount with
  | some rest => .ok rest
  | none => .error (.insufficientFunds amount available)

def checkFunds (s : Scope W) (amount : Nat) : Except HostError Unit := do
  let _ ← s.rest s.own.contract amount
  return ()

def take (s : Scope W) (a : Address) (amount : Nat) : Except HostError (Scope W) := do
  let rest ← s.rest a amount
  return s.write (.setBalance a rest)

def debit (s : Scope W) (amount : Nat) : Except HostError (Scope W) :=
  s.take s.own.contract amount

def credit (s : Scope W) (payee : Address) (amount : Nat) : Scope W :=
  s.write (.setBalance payee (s.balance payee + amount))

def send (s : Scope W) (m : Meter) (payee : Address) (amount : Nat) : Except HostError (Scope W) × Meter :=
  m.spend s.schedule.transfer do
    let s ← s.debit amount
    return s.credit payee amount

def burn (s : Scope W) (amount : Nat) : Except HostError (Scope W) := do
  let s ← s.debit amount
  return s.write (.addBurnt amount)

/-- Moves an amount from an address into the frame's contract, as the payment for the frame. -/
def receive (s : Scope W) (sender : Address) (amount : Nat) : Except HostError (Scope W) :=
  if amount = 0 then .ok s
  else do
    let s ← s.take sender amount
    let s := s.credit s.own.contract amount
    return { s with own := { s.own with paid := amount } }

/-! ## Events -/

def emit (s : Scope W) (m : Meter) (name : String) (args : List Bytes) :
    Except HostError (Scope W) × Meter :=
  let event : Event := { contract := s.own.contract, name, args }
  m.spend (s.schedule.event event.size) (.ok (s.write (.pushEvent event)))

/-! ## Nested frames -/

/-- The scope of a frame that this frame starts, before any payment. -/
def child (s : Scope W) (contract : Address) (code : List UInt8) (paid : Nat) : Scope W :=
  { s with
    world := World.child s.world
    own := { contract, caller := s.own.contract, code, paid }
    callers := s.own :: s.callers }

/-- The scope of a nested call, with the amount moved to the called contract. -/
def forCall (s : Scope W) (target : Address) (code : List UInt8) (amount : Nat) :
    Except HostError (Scope W) :=
  (s.child target code amount).receive s.own.contract amount

/-- The scope of a nested deployment, with the amount moved and the code installed. The code is written in the world of
the new frame, so a failed deployment leaves no trace. -/
def forDeploy (s : Scope W) (target : Address) (code : List UInt8) (amount : Nat) :
    Except HostError (Scope W) := do
  let s ← s.forCall target code amount
  return s.installCode code

/-- The scope after a nested frame has succeeded in another world. -/
def join (s : Scope W) (inner : W) : Scope W :=
  { s with world := World.join s.world inner }

end Scope

end ContractHost
