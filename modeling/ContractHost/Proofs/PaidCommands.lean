import ContractHost.Proofs.Nesting
import ContractHost.Proofs.StepMachine
/-!
# What a command depends on

A command without a nested frame has a price. If the frame cannot pay it, the frame is out of gas; if it can, what comes
of the command depends on the scope alone. One that asks for a nested frame depends on the scope and on the stack, and
for the rest on what is left for the nested frame.
-/
namespace ContractHost

variable {W : Type}

namespace Frame

variable {f : Frame W} {m : Meter}

/-- Settles a command that was paid with a value and the scope after it, or with a failure. -/
def settle (f : Frame W) (m : Meter) : Except HostError (Value × Scope W) → Except HostError Settled × Frame W
  | .ok (v, scope) => (.ok (.value v), { f with scope, meter := m })
  | .error e => (.error e, { f with meter := m })

theorem moveTo_eq_settle (f : Frame W) (m : Meter) (r : Except HostError (Scope W)) :
    f.moveTo (r, m) = f.settle m (r.map fun scope => (.nothing, scope)) := by
  cases r <;> rfl

theorem moveTo_spend {price : Gas} (hm : f.meter.charge price = (.ok (), m)) (r : Except HostError (Scope W)) :
    f.moveTo (f.meter.spend price r) = f.settle m (r.map fun scope => (.nothing, scope)) := by
  rw [Meter.spend, hm]
  exact moveTo_eq_settle f m r

theorem giveFound_eq_settle (f : Frame W) (m : Meter) (found : Except HostError Value) :
    giveFound { f with meter := m } found = f.settle m (found.map fun v => (v, f.scope)) := by
  cases found <;> rfl

theorem moveTo_unpaid {price : Gas} {e : HostError} (hm : f.meter.charge price = (.error e, m))
    (r : Except HostError (Scope W)) : f.moveTo (f.meter.spend price r) = (.error e, { f with meter := m }) := by
  rw [Meter.spend, hm]
  rfl

end Frame

variable [World W]

namespace Command

/-- Whether a command neither asks for a nested frame nor has to do with the gas that is left. -/
def steady : Command → Bool
  | .setRemainingGas _ | .fact .gasLimit | .fact .gasLeft | .call _ | .deploy _ => false
  | _ => true

def price (s : Scope W) : Command → Gas
  | .setStorage key _ => s.schedule.write key.length
  | .removeStorage key => s.schedule.remove key.length
  | .readStorage contract key => s.schedule.read ((s.storage contract key).getD []).length
  | .send _ _ => s.schedule.transfer
  | .event name args => s.schedule.event ({ contract := s.own.contract, name, args : Event }).size
  | _ => 0

end Command

theorem Meter.Sound.charge_zero {m : Meter} (h : m.Sound) : m.charge 0 = (.ok (), m) := by
  rw [charge_of_le (by simpa using h.consumed)]
  simp

namespace Command

theorem nesting_of_steady {c : Command} (hc : c.steady = true) : c.nesting = none := by
  cases c with
  | call | deploy => cases hc
  | _ => rfl

theorem consumed_meterAfter (s : Scope W) {m : Meter} (hm : m.Sound) (c : Command) :
    (c.meterAfter s m).consumed = (m.charge (c.price s)).2.consumed := by
  have hfree : (m.charge 0).2.consumed = m.consumed := by rw [hm.charge_zero]
  cases c with
  | setStorage | removeStorage | readStorage | send | event => rfl
  | _ => exact hfree.symm

end Command

namespace Frame

variable {config : Config} {run : Runner W} {f f' : Frame W} {m m' : Meter}

theorem perform_readStorage {contract : Address} {key : Bytes}
    (hm : f.meter.charge ((Command.readStorage contract key).price f.scope) = (.ok (), m)) :
    f.perform config run (.readStorage contract key) =
      f.settle m (.ok (.bytes (f.scope.storage contract key), f.scope)) := by
  have hread : f.meter.charge (f.scope.schedule.read ((f.scope.storage contract key).getD []).length) = (.ok (), m) := hm
  simp only [perform, Scope.readStorage, Meter.spend, hread]
  rfl

/-- Frames in one scope that can both pay for a command settle it alike. -/
theorem perform_paid (config : Config) (run : Runner W) {c : Command} (hc : c.steady = true)
    (hscope : f'.scope = f.scope) (hf : f.meter.Sound) (hf' : f'.meter.Sound)
    (hm : f.meter.charge (c.price f.scope) = (.ok (), m))
    (hm' : f'.meter.charge (c.price f.scope) = (.ok (), m')) :
    ∃ r, f.perform config run c = f.settle m r ∧ f'.perform config run c = f'.settle m' r := by
  obtain ⟨scope, meter', stack', children', ranOut'⟩ := f'
  cases hscope
  -- A command without a price leaves both meters as they are.
  have hfree : c.price f.scope = 0 → m = f.meter ∧ m' = meter' := by
    intro hprice
    rw [hprice, hf.charge_zero] at hm
    rw [hprice, hf'.charge_zero] at hm'
    cases hm
    cases hm'
    exact ⟨rfl, rfl⟩
  cases c with
  | setRemainingGas remaining => cases hc
  | fact x =>
    obtain ⟨rfl, rfl⟩ := hfree rfl
    refine ⟨.ok (f.fact x, f.scope), rfl, ?_⟩
    cases x with
    | gasLimit | gasLeft => cases hc
    | _ => rfl
  | setStorage key value => exact ⟨_, moveTo_spend hm _, moveTo_spend hm' _⟩
  | removeStorage key => exact ⟨_, moveTo_spend hm _, moveTo_spend hm' _⟩
  | readStorage contract key =>
    exact ⟨_, perform_readStorage hm, perform_readStorage hm'⟩
  | send payee amount => exact ⟨_, moveTo_spend hm _, moveTo_spend hm' _⟩
  | event name args => exact ⟨_, moveTo_spend hm _, moveTo_spend hm' _⟩
  | debit amount =>
    obtain ⟨rfl, rfl⟩ := hfree rfl
    exact ⟨_, moveTo_eq_settle f _ _, moveTo_eq_settle _ _ _⟩
  | credit payee amount =>
    obtain ⟨rfl, rfl⟩ := hfree rfl
    exact ⟨.ok (.nothing, f.scope.credit payee amount), rfl, rfl⟩
  | burn amount =>
    obtain ⟨rfl, rfl⟩ := hfree rfl
    exact ⟨_, moveTo_eq_settle f _ _, moveTo_eq_settle _ _ _⟩
  | identityState a =>
    obtain ⟨rfl, rfl⟩ := hfree rfl
    exact ⟨_, giveFound_eq_settle f _ _, giveFound_eq_settle ⟨f.scope, m', stack', children', ranOut'⟩ m' _⟩
  | identity a =>
    obtain ⟨rfl, rfl⟩ := hfree rfl
    exact ⟨_, giveFound_eq_settle f _ _, giveFound_eq_settle ⟨f.scope, m', stack', children', ranOut'⟩ m' _⟩
  | balance a =>
    obtain ⟨rfl, rfl⟩ := hfree rfl
    exact ⟨.ok (_, f.scope), rfl, rfl⟩
  | code a =>
    obtain ⟨rfl, rfl⟩ := hfree rfl
    exact ⟨.ok (_, f.scope), rfl, rfl⟩
  | contractAddress code args nonce =>
    obtain ⟨rfl, rfl⟩ := hfree rfl
    exact ⟨.ok (_, f.scope), rfl, rfl⟩
  | debug =>
    obtain ⟨rfl, rfl⟩ := hfree rfl
    exact ⟨.ok (_, f.scope), rfl, rfl⟩
  | call call => cases hc
  | deploy d => cases hc

theorem perform_unpaid {c : Command} (hf : f.meter.Sound) {e : HostError}
    (hm : f.meter.charge (c.price f.scope) = (.error e, m)) :
    f.perform config run c = (.error e, { f with meter := m }) := by
  have hfree : c.price f.scope ≠ 0 := by
    intro hprice
    rw [hprice, hf.charge_zero] at hm
    cases hm
  cases c with
  | setStorage | removeStorage | send | event => exact moveTo_unpaid hm _
  | readStorage contract key =>
    have hread : f.meter.charge (f.scope.schedule.read ((f.scope.storage contract key).getD []).length) = (.error e, m) :=
      hm
    simp only [perform, Scope.readStorage, Meter.spend, hread]
    rfl
  | _ => exact absurd rfl hfree

/-! ## Nested frames -/

theorem callScope_congr (hscope : f'.scope = f.scope) (hstack : f'.stack = f.stack) (call : Call) :
    f'.callScope call = f.callScope call := by
  simp only [callScope, precheck, hscope, hstack]

theorem deploymentScope_congr (hscope : f'.scope = f.scope) (hstack : f'.stack = f.stack) (d : Deployment) :
    f'.deploymentScope d = f.deploymentScope d := by
  simp only [deploymentScope, precheck, hscope, hstack]

theorem entered?_congr (hscope : f'.scope = f.scope) (hstack : f'.stack = f.stack) (r : Request) :
    f'.entered? config r = f.entered? config r := by
  simp only [entered?, hscope]
  split
  · simp only [admission?, callScope_congr hscope hstack, deploymentScope_congr hscope hstack]
  · rfl

theorem admission?_some {c : Command} {n : Command.Nesting} {s : Scope W} (h : f.admission? c = some (n, s)) :
    c.nesting = some n ∧ f.Entry c s := by
  obtain ⟨hn, hs⟩ := admission?_eq_some_iff.mp h
  exact ⟨hn, opening_entry hs⟩

end Frame

end ContractHost
