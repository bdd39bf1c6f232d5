import ContractHost.Proofs.Deployments
/-!
# The reserved method

No frame runs a constructor as a method, neither the outermost one nor a nested one. So nobody can tell what a VM would do
if it had to: two VMs that differ only in this have the same runs.
-/
namespace ContractHost

/-- VMs that differ at most in what they do for the reserved method. -/
structure Vm.Alike (vm vm' : Vm) : Prop where
  execute : ∀ code method args context gas, method ≠ constructorName →
    vm.execute code method args context gas = vm'.execute code method args context gas
  deploy : ∀ code args nonce gas, vm.deploy code args nonce gas = vm'.deploy code args nonce gas

theorem Vm.Alike.program {vm vm' : Vm} (h : vm.Alike vm') {i : Invocation} (hi : i.Regular) (code : Bytes) (gas : Gas) :
    vm.program i code gas = vm'.program i code gas := by
  cases i with
  | call method args context =>
    apply h.execute
    rintro rfl
    exact hi args context rfl
  | deploy args nonce => exact h.deploy code args nonce gas

section

variable {W : Type} [World W] {config : Config}

namespace Frame

variable {run run' : Runner W}

theorem perform_congr (hrun : ∀ s stack i amount gas, i.Regular → run s stack i amount gas = run' s stack i amount gas)
    (f : Frame W) (c : Command) : f.perform config run c = f.perform config run' c := by
  cases hn : c.nesting with
  | none => exact perform_of_nesting_none config run run' f hn
  | some n =>
    rcases f.opening_cases c with ⟨why, hwhy⟩ | ⟨s, hs⟩
    · rw [perform_refused config run hn hwhy, perform_refused config run' hn hwhy]
    · have hregular := (opening_entry hs).regular hn
      rw [perform_ran config run hn hs, perform_ran config run' hn hs, hrun _ _ _ _ _ hregular]

theorem play_congr (hrun : ∀ s stack i amount gas, i.Regular → run s stack i amount gas = run' s stack i amount gas)
    {α : Type} (p : Program α) (f : Frame W) : play config run p f = play config run' p f := by
  have hanswer : ∀ (f : Frame W) r, f.answer config run r = f.answer config run' r := by
    intro f r
    unfold answer
    cases r.check config.limits f.scope.own.contract with
    | error e => rfl
    | ok c => simp only [perform_congr hrun]
  induction p generalizing f with
  | done a => rfl
  | crash reason => rfl
  | ask r next ih => simp only [play, hanswer, ih]

end Frame

theorem runFrame_congr {vm vm' : Vm} (h : vm.Alike vm') (room : Nat) (s : Scope W) (stack : CallStack) {i : Invocation}
    (hi : i.Regular) (amount : Amount) (gas : Gas) :
    runFrame vm config room s stack i amount gas = runFrame vm' config room s stack i amount gas := by
  induction room generalizing s stack i amount gas with
  | zero => rfl
  | succ room ih =>
    simp only [runFrame]
    cases stack.enter s.own.contract s.own.caller amount with
    | error e => rfl
    | ok entered =>
      have hbelow : ∀ s stack i amount gas, i.Regular →
          runFrame (W := W) vm config room s stack i amount gas = runFrame vm' config room s stack i amount gas :=
        fun s stack i amount gas hi => ih s stack hi amount gas
      simp only [runEntered, h.program hi, Frame.play_congr hbelow]

end

/-- Nobody can tell what a VM does for the reserved method. -/
theorem Host.carryOut_congr {vm vm' : Vm} (hvm : vm.Alike vm') (config : Config) (store : Store) (order : Order) :
    Host.carryOut { vm, config } store order = Host.carryOut { vm := vm', config } store order := by
  rw [carryOut_def, carryOut_def]
  cases order.check config.limits with
  | error e => rfl
  | ok u =>
    cases hscope : order.scope config store (Layers.ofLedger store.ledger) with
    | error why => rfl
    | ok s =>
      have hflat : order.scope config store store.ledger = .ok s.flat := by
        rw [Order.scope_flat, hscope]
        rfl
      have hregular := (Order.scope_ok hflat).readied.regular
      simp only [Host.run, runFrame_congr hvm _ s _ hregular]
      rfl

end ContractHost
