import ContractHost.Address
import ContractHost.Amount
/-!
# Overlays

An overlay holds what a frame has written and not yet handed on. Its values are absolute: a balance is the balance after
the change. So a later overlay is folded into an earlier one by overwriting; the events follow each other and the burnt
amounts add up.
-/
namespace ContractHost

/-- What a contract wrote to the event log. -/
structure Event where
  contract : Address
  name : String
  args : List Bytes
  deriving DecidableEq

/-- The bytes of an event that are paid for: its name and its arguments. -/
def Event.size (e : Event) : Nat :=
  e.name.utf8ByteSize + e.args.flatten.length

/-- The pending writes of a frame. -/
structure Overlay where
  /-- Written storage; `none` is a removed key. -/
  storage : OrderedMap (Address × Bytes) (Option Bytes) := .empty
  balances : OrderedMap Address Amount := .empty
  codes : OrderedMap Address Bytes := .empty
  events : List Event := []
  burnt : Amount := 0
  deriving DecidableEq

namespace Overlay

def empty : Overlay := {}

instance : Inhabited Overlay := ⟨empty⟩

/-- Whether nothing has been written. -/
def isEmpty (o : Overlay) : Bool :=
  o.storage.toList.isEmpty && o.balances.toList.isEmpty && o.codes.toList.isEmpty && o.events.isEmpty && o.burnt == 0

/-- What the overlay says about a key: nothing, that it is removed, or its value. -/
def storage? (o : Overlay) (contract : Address) (key : List UInt8) : Option (Option Bytes) :=
  o.storage.get? (contract, key)

def balance? (o : Overlay) (a : Address) : Option Amount :=
  o.balances.get? a

def code? (o : Overlay) (a : Address) : Option Bytes :=
  o.codes.get? a

def setStorage (o : Overlay) (contract : Address) (key value : List UInt8) : Overlay :=
  { o with storage := o.storage.insert (contract, key) (some value) }

def removeStorage (o : Overlay) (contract : Address) (key : List UInt8) : Overlay :=
  { o with storage := o.storage.insert (contract, key) none }

def setBalance (o : Overlay) (a : Address) (balance : Nat) : Overlay :=
  { o with balances := o.balances.insert a balance }

def setCode (o : Overlay) (a : Address) (code : List UInt8) : Overlay :=
  { o with codes := o.codes.insert a code }

def pushEvent (o : Overlay) (e : Event) : Overlay :=
  { o with events := o.events ++ [e] }

def addBurnt (o : Overlay) (amount : Nat) : Overlay :=
  { o with burnt := o.burnt + amount }

def merge (o later : Overlay) : Overlay :=
  { storage := o.storage.merge later.storage
    balances := o.balances.merge later.balances
    codes := o.codes.merge later.codes
    events := o.events ++ later.events
    burnt := o.burnt + later.burnt }

end Overlay

/-- A single write to an overlay. -/
inductive Write where
  | setStorage (contract : Address) (key value : Bytes)
  | removeStorage (contract : Address) (key : Bytes)
  | setBalance (address : Address) (balance : Amount)
  | setCode (address : Address) (code : Bytes)
  | pushEvent (event : Event)
  | addBurnt (amount : Amount)
  deriving DecidableEq

def Overlay.write (o : Overlay) : Write → Overlay
  | .setStorage contract key value => o.setStorage contract key value
  | .removeStorage contract key => o.removeStorage contract key
  | .setBalance a balance => o.setBalance a balance
  | .setCode a code => o.setCode a code
  | .pushEvent e => o.pushEvent e
  | .addBurnt amount => o.addBurnt amount

def Overlay.writeAll (o : Overlay) (ws : List Write) : Overlay :=
  ws.foldl Overlay.write o

end ContractHost
