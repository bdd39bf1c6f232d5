import ContractHost.HostError
import ContractHost.Overlay
/-!
# The ledger

The ledger holds the accounts, the facts about the chain, the event log and the amount that was burnt so far. An account
comes into existence when anything of it is written.
-/
namespace ContractHost

/-- What contracts can learn about the chain during one block. -/
structure Chain where
  blockNumber : UInt64 := 1
  /-- Seconds since 1970. -/
  blockTimestamp : Int64 := 0
  minFeePerGas : Amount := 0
  blockSeed : Bytes := List.replicate 32 0
  networkSize : UInt64 := 0
  epoch : UInt16 := 0
  deriving DecidableEq

/-- What the ledger knows about an address. -/
structure Account where
  balance : Amount := 0
  code : Option Bytes := none
  storage : OrderedMap Bytes Bytes := .empty
  identityState : UInt8 := 0
  identity : Option Bytes := none
  deriving DecidableEq

instance : Inhabited Account := ⟨{}⟩

/-- A ledger. -/
structure Ledger where
  chain : Chain := {}
  accounts : OrderedMap Address Account := .empty
  events : List Event := []
  burnt : Amount := 0
  deriving DecidableEq

namespace Ledger

def account? (l : Ledger) (a : Address) : Option Account :=
  l.accounts.get? a

/-- The account of an address; one that does not exist is blank. -/
def accountAt (l : Ledger) (a : Address) : Account :=
  (l.account? a).getD {}

/-- Changes an account, which exists afterwards. -/
def modify (l : Ledger) (a : Address) (f : Account → Account) : Ledger :=
  { l with accounts := l.accounts.insert a (f (l.accountAt a)) }

def storage (l : Ledger) (contract : Address) (key : List UInt8) : Option Bytes :=
  (l.accountAt contract).storage.get? key

def balance (l : Ledger) (a : Address) : Amount :=
  (l.accountAt a).balance

def code (l : Ledger) (a : Address) : Option Bytes :=
  (l.accountAt a).code

def identityState (l : Ledger) (a : Address) : UInt8 :=
  (l.accountAt a).identityState

def identity (l : Ledger) (a : Address) : Option Bytes :=
  (l.accountAt a).identity

def setBalance (l : Ledger) (a : Address) (balance : Nat) : Ledger :=
  l.modify a fun x => { x with balance }

def setCode (l : Ledger) (a : Address) (code : List UInt8) : Ledger :=
  l.modify a fun x => { x with code := some code }

def setStorage (l : Ledger) (contract : Address) (key value : List UInt8) : Ledger :=
  l.modify contract fun x => { x with storage := x.storage.insert key value }

def removeStorage (l : Ledger) (contract : Address) (key : List UInt8) : Ledger :=
  l.modify contract fun x => { x with storage := x.storage.erase key }

def setIdentity (l : Ledger) (a : Address) (state : UInt8) (identity : Option Bytes) : Ledger :=
  l.modify a fun x => { x with identityState := state, identity }

def pushEvent (l : Ledger) (e : Event) : Ledger :=
  { l with events := l.events ++ [e] }

def addBurnt (l : Ledger) (amount : Nat) : Ledger :=
  { l with burnt := l.burnt + amount }

def write (l : Ledger) : Write → Ledger
  | .setStorage contract key value => l.setStorage contract key value
  | .removeStorage contract key => l.removeStorage contract key
  | .setBalance a balance => l.setBalance a balance
  | .setCode a code => l.setCode a code
  | .pushEvent e => l.pushEvent e
  | .addBurnt amount => l.addBurnt amount

def applyStorage (l : Ledger) : (Address × Bytes) × Option Bytes → Ledger
  | ((contract, key), some value) => l.setStorage contract key value
  | ((contract, key), none) => l.removeStorage contract key

/-- Applies an overlay: storage, balances and codes are overwritten, events appended, burnt amounts added. -/
def apply (l : Ledger) (o : Overlay) : Ledger :=
  let l := o.storage.toList.foldl applyStorage l
  let l := o.balances.toList.foldl (fun l (a, balance) => l.setBalance a balance) l
  let l := o.codes.toList.foldl (fun l (a, code) => l.setCode a code) l
  { l with events := l.events ++ o.events, burnt := l.burnt + o.burnt }

end Ledger

/-! ## Stores

A store is a ledger as the host reaches it. It may be out of order: it may refuse changes, and it may fail to look up
identities.
-/

/-- A ledger that may be out of order. -/
structure Store where
  ledger : Ledger
  /-- Why changes are refused, if they are. -/
  refusal : Option String := none
  /-- What breaks the look-up of identities, if something does. -/
  identityFault : Option String := none
  deriving DecidableEq

namespace Store

def identityState (s : Store) (a : Address) : Except HostError UInt8 :=
  match s.identityFault with
  | some reason => .error (.broken reason)
  | none => .ok (s.ledger.identityState a)

/-- The identity record of an address. A store that fails here does not say why. -/
def identity (s : Store) (a : Address) : Except HostError (Option Bytes) :=
  match s.identityFault with
  | some _ => .error (.broken HostError.unknown)
  | none => .ok (s.ledger.identity a)

/-- Applies an overlay to the ledger, in whole or not at all. -/
def apply (s : Store) (o : Overlay) : Except LedgerError Store :=
  match s.refusal with
  | some reason => .error (.rejected reason)
  | none => .ok { s with ledger := s.ledger.apply o }

end Store

end ContractHost
