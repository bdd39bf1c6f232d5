import ContractHost.Proofs.LedgerWrites
import ContractHost.Scope
/-!
# Flattening layers

Layers are flattened by letting the ledger take over every pending overlay. The flat ledger answers every look-up as the
layers do, and it goes along with every write, with the start of a nested frame and with its commit. A commit needs that
the nested frame was run on top of the very layers that take over its writes; frames keep to that (`Layers.Above`).
-/
namespace ContractHost

/-- The ledger after it has taken over overlays, of which the latest stands first. -/
def Ledger.applyAll (l : Ledger) : List Overlay → Ledger
  | [] => l
  | o :: earlier => (l.applyAll earlier).apply o

theorem View.storage_eq (l : Ledger) (os : List Overlay) (contract : Address) (key : Bytes) :
    View.storage l os contract key = (l.applyAll os).storage contract key := by
  induction os with
  | nil => rfl
  | cons o os ih =>
    rw [Ledger.applyAll, Ledger.storage_apply, View.storage, ih]
    cases o.storage? contract key <;> rfl

theorem View.balance_eq (l : Ledger) (os : List Overlay) (a : Address) :
    View.balance l os a = (l.applyAll os).balance a := by
  induction os with
  | nil => rfl
  | cons o os ih =>
    rw [Ledger.applyAll, Ledger.balance_apply, View.balance, ih]
    cases o.balance? a <;> rfl

theorem View.code_eq (l : Ledger) (os : List Overlay) (a : Address) :
    View.code l os a = (l.applyAll os).code a := by
  induction os with
  | nil => rfl
  | cons o os ih =>
    rw [Ledger.applyAll, Ledger.code_apply, View.code, ih]
    cases o.code? a <;> simp

namespace Layers

def flat (w : Layers) : Ledger :=
  w.ledger.applyAll w.overlays

theorem flat_ofLedger (l : Ledger) : (ofLedger l).flat = l :=
  l.apply_empty

theorem flat_eq_apply {w : Layers} (h : w.callers = []) : w.flat = w.ledger.apply w.own := by
  rw [flat, overlays, h, Ledger.applyAll, Ledger.applyAll]

theorem storage_flat (w : Layers) (contract : Address) (key : Bytes) :
    World.storage w.flat contract key = World.storage w contract key :=
  (View.storage_eq w.ledger w.overlays contract key).symm

theorem balance_flat (w : Layers) (a : Address) : World.balance w.flat a = World.balance w a :=
  (View.balance_eq w.ledger w.overlays a).symm

theorem code_flat (w : Layers) (a : Address) : World.code w.flat a = World.code w a :=
  (View.code_eq w.ledger w.overlays a).symm

theorem write_flat (w : Layers) (x : Write) : World.write w.flat x = (World.write w x).flat :=
  (Ledger.apply_write _ w.own x).symm

theorem child_flat (w : Layers) : World.child w.flat = (World.child w).flat :=
  (Ledger.apply_empty w.flat).symm

/-- Layers that differ at most in the overlay on top. -/
structure Above (w w' : Layers) : Prop where
  ledger : w'.ledger = w.ledger
  callers : w'.callers = w.callers

theorem Above.refl (w : Layers) : Above w w :=
  ⟨rfl, rfl⟩

theorem Above.trans {w w' w'' : Layers} (h : Above w w') (h' : Above w' w'') : Above w w'' :=
  ⟨h'.ledger.trans h.ledger, h'.callers.trans h.callers⟩

theorem Above.write (w : Layers) (x : Write) : Above w (World.write w x) :=
  ⟨rfl, rfl⟩

theorem Above.join (w inner : Layers) : Above w (World.join w inner) :=
  ⟨rfl, rfl⟩

theorem join_flat {w inner : Layers} (h : Above (World.child w) inner) :
    World.join w.flat inner.flat = (World.join w inner).flat := by
  have hinner : inner.flat = w.flat.apply inner.own := by
    rw [flat, overlays, h.ledger, h.callers]
    rfl
  calc inner.flat
      = (w.ledger.applyAll w.callers |>.apply w.own).apply inner.own := hinner
    _ = (w.ledger.applyAll w.callers).apply (w.own.merge inner.own) := (Ledger.apply_merge _ w.own inner.own).symm

end Layers

/-! ## Scopes -/

theorem Meter.spend_map {α β : Type} (g : α → β) (m : Meter) (price : UInt64) (r : Except HostError α) :
    m.spend price (r.map g) = Prod.map (Except.map g) id (m.spend price r) := by
  unfold Meter.spend
  split <;> rfl

namespace Scope

def flat (s : Scope Layers) : Scope Ledger :=
  { world := s.world.flat, store := s.store, schedule := s.schedule, own := s.own, callers := s.callers }

variable (s : Scope Layers)

@[simp] theorem flat_schedule : s.flat.schedule = s.schedule := rfl
@[simp] theorem flat_own : s.flat.own = s.own := rfl

@[simp] theorem flat_storage (contract : Address) (key : List UInt8) :
    s.flat.storage contract key = s.storage contract key :=
  s.world.storage_flat contract key

@[simp] theorem flat_balance (a : Address) : s.flat.balance a = s.balance a :=
  s.world.balance_flat a

@[simp] theorem flat_code (a : Address) : s.flat.code a = s.code a :=
  s.world.code_flat a

@[simp] theorem flat_write (x : Write) : s.flat.write x = (s.write x).flat := by
  simp only [write, flat, Layers.write_flat]

@[simp] theorem flat_rest (a : Address) (amount : Nat) : s.flat.rest a amount = s.rest a amount := by
  simp only [rest, flat_balance]

@[simp] theorem flat_checkFunds (amount : Nat) : s.flat.checkFunds amount = s.checkFunds amount := by
  rw [checkFunds, checkFunds, flat_rest]
  rfl

@[simp] theorem flat_take (a : Address) (amount : Nat) : s.flat.take a amount = (s.take a amount).map flat := by
  simp only [take, flat_rest, flat_write]
  cases s.rest a amount <;> rfl

@[simp] theorem flat_debit (amount : Nat) : s.flat.debit amount = (s.debit amount).map flat :=
  s.flat_take s.own.contract amount

@[simp] theorem flat_credit (payee : Address) (amount : Nat) :
    s.flat.credit payee amount = (s.credit payee amount).flat := by
  simp only [credit, flat_balance, flat_write]

@[simp] theorem flat_setStorage (m : Meter) (key value : List UInt8) :
    s.flat.setStorage m key value = Prod.map (Except.map flat) id (s.setStorage m key value) := by
  rw [setStorage, setStorage, ← Meter.spend_map]
  simp only [flat_write, flat_schedule, flat_own, Except.map]

@[simp] theorem flat_removeStorage (m : Meter) (key : List UInt8) :
    s.flat.removeStorage m key = Prod.map (Except.map flat) id (s.removeStorage m key) := by
  rw [removeStorage, removeStorage, ← Meter.spend_map]
  simp only [flat_write, flat_schedule, flat_own, Except.map]

@[simp] theorem flat_readStorage (m : Meter) (contract : Address) (key : List UInt8) :
    s.flat.readStorage m contract key = s.readStorage m contract key := by
  simp only [readStorage, flat_storage, flat_schedule]

@[simp] theorem flat_send (m : Meter) (payee : Address) (amount : Nat) :
    s.flat.send m payee amount = Prod.map (Except.map flat) id (s.send m payee amount) := by
  rw [send, send, ← Meter.spend_map, flat_debit]
  cases s.debit amount with
  | error e => rfl
  | ok t => exact congrArg (fun r => m.spend _ (.ok r)) (t.flat_credit payee amount)

@[simp] theorem flat_burn (amount : Nat) : s.flat.burn amount = (s.burn amount).map flat := by
  rw [burn, burn, flat_debit]
  cases s.debit amount with
  | error e => rfl
  | ok t => exact congrArg Except.ok (t.flat_write _)

@[simp] theorem flat_emit (m : Meter) (name : String) (args : List Bytes) :
    s.flat.emit m name args = Prod.map (Except.map flat) id (s.emit m name args) := by
  rw [emit, emit, ← Meter.spend_map]
  simp only [flat_write, flat_schedule, flat_own, Except.map]

@[simp] theorem flat_receive (sender : Address) (amount : Nat) :
    s.flat.receive sender amount = (s.receive sender amount).map flat := by
  rw [receive, receive]
  split
  · rfl
  · rw [flat_take]
    cases s.take sender amount with
    | error e => rfl
    | ok t =>
      have hcredit := t.flat_credit t.own.contract amount
      exact congrArg (fun u : Scope Ledger => Except.ok { u with own := { u.own with paid := amount } }) hcredit

@[simp] theorem flat_installCode (code : List UInt8) : s.flat.installCode code = (s.installCode code).flat :=
  s.flat_write (.setCode s.own.contract code)

@[simp] theorem flat_child (contract : Address) (code : List UInt8) (paid : Nat) :
    s.flat.child contract code paid = (s.child contract code paid).flat := by
  simp only [child, flat, Layers.child_flat]

@[simp] theorem flat_forCall (target : Address) (code : List UInt8) (amount : Nat) :
    s.flat.forCall target code amount = (s.forCall target code amount).map flat := by
  rw [forCall, forCall, flat_child, flat_receive]
  rfl

@[simp] theorem flat_forDeploy (target : Address) (code : List UInt8) (amount : Nat) :
    s.flat.forDeploy target code amount = (s.forDeploy target code amount).map flat := by
  rw [forDeploy, forDeploy, flat_forCall]
  cases s.forCall target code amount with
  | error e => rfl
  | ok t => exact congrArg Except.ok (t.flat_installCode code)

end Scope

end ContractHost
