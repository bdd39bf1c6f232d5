import ContractHost.Ledger
/-!
# Worlds

A world is the state in which the frames of a call tree run: they look things up in it and write to it. A nested frame
gets a world of its own, which takes the place of the caller's if the frame succeeds and is dropped if it fails.

There are two worlds. In the layered one every frame writes to an overlay of its own, which is folded into that of its
caller; the ledger stays as it is. The other one is the bare ledger, changed in place: the world of a nested frame
starts as a copy.
-/
namespace ContractHost

/-! ## Looking through overlays

What is seen through a stack of overlays is what the first of them says, and else what the ledger says. The latest
overlay stands first.
-/

namespace View

def storage (l : Ledger) : List Overlay → Address → Bytes → Option Bytes
  | [], contract, key => l.storage contract key
  | o :: earlier, contract, key =>
    match o.storage? contract key with
    | some value => value
    | none => storage l earlier contract key

def balance (l : Ledger) : List Overlay → Address → Amount
  | [], a => l.balance a
  | o :: earlier, a =>
    match o.balance? a with
    | some balance => balance
    | none => balance l earlier a

def code (l : Ledger) : List Overlay → Address → Option Bytes
  | [], a => l.code a
  | o :: earlier, a =>
    match o.code? a with
    | some code => some code
    | none => code l earlier a

end View

/-! ## Worlds of frames -/

/-- A state in which frames can run. -/
class World (W : Type) where
  /-- The value of a key in a contract's storage. -/
  storage : W → Address → Bytes → Option Bytes
  balance : W → Address → Amount
  code : W → Address → Option Bytes
  write : W → Write → W
  /-- The world of a nested frame at its start. -/
  child : W → W
  /-- The world of a caller after a nested frame that ended in another world has succeeded. -/
  join : W → W → W
  /-- A nested frame sees the balances that its caller sees. -/
  balance_child : ∀ w a, balance (child w) a = balance w a

/-- The world of a frame that writes to an overlay: what is not in it is looked up in the overlays of the waiting
callers, then in the ledger. A nested frame sees what its callers have written, because balances are absolute: it
would else overwrite a pending payment. -/
structure Layers where
  ledger : Ledger
  /-- The writes of the frame. -/
  own : Overlay := {}
  /-- The writes of the waiting callers, innermost first. -/
  callers : List Overlay := []
  deriving DecidableEq

namespace Layers

/-- The world of a frame without callers that has written nothing. -/
def ofLedger (ledger : Ledger) : Layers :=
  { ledger }

def overlays (w : Layers) : List Overlay :=
  w.own :: w.callers

instance : World Layers where
  storage w := View.storage w.ledger w.overlays
  balance w := View.balance w.ledger w.overlays
  code w := View.code w.ledger w.overlays
  write w x := { w with own := w.own.write x }
  child w := { w with own := {}, callers := w.overlays }
  join w inner := { w with own := w.own.merge inner.own }
  balance_child _ _ := rfl

end Layers

/-- A ledger that is changed in place. -/
instance : World Ledger where
  storage := Ledger.storage
  balance := Ledger.balance
  code := Ledger.code
  write := Ledger.write
  child l := l
  join _ inner := inner
  balance_child _ _ := rfl

end ContractHost
