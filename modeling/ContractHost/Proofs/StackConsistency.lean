import ContractHost.Proofs.PaidCommands
import ContractHost.Proofs.Termination
/-!
# The call stack at every step

The call stack says twice which frames are active: it lists them, and it counts them by contract. And the running frame
with the callers that wait for it says so once more. At every step of a call tree the three agree
(`Machine.start_consistent`), whatever the programs do: a frame is listed and counted when it is entered, it is taken off
both when it ends or breaks off, and no request in between touches either.
-/
namespace ContractHost

/-! ## Consistent stacks -/

/-- A call stack whose counts are those of its frames and whose frames are those of the active roles, innermost first.
They are as deep as they stand and not too many, and no contract has two of them if that is forbidden. -/
structure CallStack.Consistent (config : Config) (chain : List Role) (s : CallStack) : Prop where
  counted : s.Counted
  active_ne_zero : ∀ a, s.active.get? a ≠ some 0
  depths : s.frames.reverse.map CallFrame.depth = List.range s.depth
  depth_le : s.depth ≤ config.maxCallDepth.toNat
  nodup : config.allowReentrancy = false → (s.frames.map CallFrame.contract).Nodup
  roles : s.frames.map (fun f => (f.contract, f.caller, f.value)) = chain.map fun r => (r.contract, r.caller, r.paid)

namespace CallStack

variable {config : Config} {chain : List Role} {s : CallStack}

theorem Counted.active_ne_zero (h : s.Counted) (a : Address) : s.active.get? a ≠ some 0 := by
  rw [h a]
  split
  next => exact nofun
  next hcount => exact fun hzero => hcount (Option.some.inj hzero)

theorem consistent_of_depth (hcounted : s.Counted) (h : s.depth = 0) : s.Consistent config [] := by
  have hframes : s.frames = [] := List.length_eq_zero_iff.mp h
  refine ⟨hcounted, hcounted.active_ne_zero, ?_, h ▸ Nat.zero_le _, fun _ => ?_, ?_⟩
  · rw [hframes, h]
    rfl
  · rw [hframes]
    exact List.nodup_nil
  · rw [hframes]
    rfl

theorem Consistent.push (h : s.Consistent config chain) (r : Role) (hmax : s.maxDepth = config.maxCallDepth.toNat)
    (hallow : s.allowReentrancy = config.allowReentrancy) (hcheck : s.checkEnter r.contract = .ok ()) :
    (s.push r.contract r.caller r.paid).Consistent config (r :: chain) := by
  obtain ⟨hroom, hfresh⟩ := checkEnter_ok_iff.mp hcheck
  have hcounted := h.counted.push r.contract r.caller r.paid
  refine ⟨hcounted, hcounted.active_ne_zero, ?_, ?_, fun hforbidden => ?_, ?_⟩
  · rw [depth_push, List.range_succ, ← h.depths]
    simp [CallStack.push]
  · rw [depth_push, ← hmax]
    exact hroom
  · -- The contract is not counted, so it has no frame on the stack.
    have hnone : ¬ ∃ frame ∈ s.frames, frame.contract = r.contract := by
      rw [← h.counted.contains_iff, hfresh (hallow.trans hforbidden)]
      exact Bool.false_ne_true
    have hnotMem : r.contract ∉ s.frames.map CallFrame.contract := fun hmem => hnone (List.mem_map.mp hmem)
    exact List.nodup_cons.mpr ⟨hnotMem, h.nodup hforbidden⟩
  · exact congrArg ((r.contract, r.caller, r.paid) :: ·) h.roles

end CallStack

variable {W : Type}

/-! ## Active frames -/

/-- A frame that plays the role with which it was entered, on a stack that was asked for it. -/
structure Activation.Seated (config : Config) (a : Activation W) : Prop where
  own : a.frame.scope.own = a.scope.own
  paid : a.scope.own.paid = a.amount
  allowReentrancy : a.before.allowReentrancy = config.allowReentrancy
  admitted : a.before.checkEnter a.scope.own.contract = .ok ()

def Waiting.roles (callers : List (Waiting W)) : List Role :=
  callers.map fun w => w.activation.frame.scope.own

namespace Machine

variable {config : Config} {a : Activation W} {callers : List (Waiting W)}

/-- A state in which the frame that runs and those that wait are seated. -/
def Seated (config : Config) : Machine W → Prop
  | .running a _ callers => a.Seated config ∧ ∀ w ∈ callers, w.activation.Seated config
  | .ended _ => True

theorem Entered.consistent (h : Entered config a) (hseated : a.Seated config) {chain : List Role}
    (hbefore : a.before.Consistent config chain) : a.frame.stack.Consistent config (a.frame.scope.own :: chain) := by
  rw [h.stack, hseated.own, ← hseated.paid]
  exact hbefore.push a.scope.own h.maxDepth hseated.allowReentrancy hseated.admitted

theorem Suspended.consistent {stack : CallStack} (hcounted : stack.Counted) (h : Suspended config stack callers)
    (hseated : ∀ w ∈ callers, w.activation.Seated config) : stack.Consistent config (Waiting.roles callers) := by
  induction callers generalizing stack with
  | nil => exact CallStack.consistent_of_depth hcounted h
  | cons w callers ih =>
    obtain ⟨hentered, rfl, hbelow⟩ := h
    obtain ⟨hw, hcallers⟩ := List.forall_mem_cons.mp hseated
    exact hentered.consistent hw (ih hentered.counted hbelow hcallers)

variable [World W]

theorem seated_hand (outcome : FrameOutcome W) (h : ∀ w ∈ callers, w.activation.Seated config) :
    (hand outcome callers).Seated config := by
  cases callers with
  | nil => trivial
  | cons w callers =>
    obtain ⟨hw, hcallers⟩ := List.forall_mem_cons.mp h
    refine ⟨⟨?_, hw.paid, hw.allowReentrancy, hw.admitted⟩, hcallers⟩
    let f := w.activation.frame
    have hown : (f.exchange w.request ((f.resume outcome).record outcome.record)).2.scope.own = f.scope.own := by
      rw [Frame.exchange_scope, Frame.record_scope, Frame.resume]
      split <;> rfl
    exact hown.trans hw.own

theorem seated_enter (vm : Vm) {s : Scope W} {stack : CallStack} (i : Invocation) {amount : Amount} (gas : Gas)
    (hpaid : s.own.paid = amount) (hallow : stack.allowReentrancy = config.allowReentrancy)
    (h : ∀ w ∈ callers, w.activation.Seated config) : (enter vm config s stack i amount gas callers).Seated config := by
  rw [enter]
  cases henter : stack.enter s.own.contract s.own.caller amount with
  | error e => exact seated_hand _ h
  | ok entered => exact ⟨⟨rfl, hpaid, hallow, (CallStack.enter_ok henter).1⟩, h⟩

end Machine

variable [World W]

/-! ## What is paid into a frame -/

theorem Scope.receive_paid {s t : Scope W} {sender : Address} {amount : Nat} (h : s.receive sender amount = .ok t)
    (hs : s.own.paid = 0 ∨ s.own.paid = amount) : t.own.paid = amount := by
  rcases receive_ok h with ⟨rfl, rfl⟩ | ⟨-, -, rfl⟩
  · exact hs.elim id id
  · rfl

namespace Frame

variable {config : Config} {f : Frame W}

theorem Entry.paid {c : Command} {n : Command.Nesting} (hn : c.nesting = some n) {s : Scope W} (h : f.Entry c s) :
    s.own.paid = n.amount := by
  cases h with
  | call call b code s hcode hmethod hstack hs =>
    cases hn
    exact Scope.receive_paid (s := f.scope.child call.target (b :: code) call.amount) hs (.inr rfl)
  | deploy d s hcode hstack hs =>
    cases hn
    obtain ⟨t, ht, rfl⟩ := Scope.forDeploy_ok hs
    show t.own.paid = d.amount
    exact Scope.receive_paid (s := f.scope.child d.address d.code d.amount) ht (.inr rfl)

theorem answer_own (run : Runner W) (r : Request) : (f.answer config run r).2.scope.own = f.scope.own := by
  rw [answer, exchange_scope]
  cases r.check config.limits f.scope.own.contract with
  | error e => rfl
  | ok c => exact (perform_move config run f c).own

end Frame

theorem Order.Entry.paid {config : Config} {store : Store} {world : W} {order : Order} {s : Scope W}
    (h : Order.Entry config store world order s) : s.own.paid = order.amount := by
  cases h with
  | execute o b code s hcode hmethod hs => exact Scope.receive_paid hs (.inl rfl)
  | deploy o s hcode hs =>
    show s.own.paid = o.amount
    exact Scope.receive_paid hs (.inl rfl)

/-! ## Steps -/

namespace Machine

variable {config : Config}

/-- The frames stay seated, the new one among them. -/
theorem Seated.step (vm : Vm) {m : Machine W} (hsound : m.Sound config) (h : m.Seated config) :
    (m.step vm config).Seated config := by
  match m with
  | .ended outcome => trivial
  | .running a (.done output) callers => exact seated_hand _ h.2
  | .running a (.crash reason) callers => exact seated_hand _ h.2
  | .running a (.ask r next) callers =>
    obtain ⟨ha, hcallers⟩ := h
    rw [Machine.step]
    cases hentered : a.frame.entered? config r with
    | none => exact ⟨⟨(Frame.answer_own _ r).trans ha.own, ha.paid, ha.allowReentrancy, ha.admitted⟩, hcallers⟩
    | some found =>
      obtain ⟨n, s⟩ := found
      have hallow : a.frame.stack.allowReentrancy = config.allowReentrancy := by
        rw [hsound.1.stack]
        exact ha.allowReentrancy
      have hpaid : s.own.paid = n.amount := by
        simp only [Frame.entered?] at hentered
        split at hentered
        next c _ =>
          obtain ⟨hn, hentry⟩ := Frame.admission?_some hentered
          exact hentry.paid hn
        next => cases hentered
      exact seated_enter vm n.invocation _ hpaid hallow (List.forall_mem_cons.mpr ⟨ha, hcallers⟩)

theorem Seated.steps (vm : Vm) {m : Machine W} (hsound : m.Sound config) (h : m.Seated config) (n : Nat) :
    ((Machine.step vm config)^[n] m).Seated config :=
  (Function.Iterate.rec (fun m : Machine W => m.Sound config ∧ m.Seated config) ⟨hsound, h⟩
    (fun _ hm => ⟨hm.1.step vm, hm.2.step vm hm.1⟩) n).2

/-! ## Call trees -/

theorem steps_ended (vm : Vm) (outcome : FrameOutcome W) (n : Nat) :
    (step vm config)^[n] (.ended outcome) = .ended outcome :=
  Function.iterate_fixed rfl n

/-- A call tree has one outcome. -/
theorem Reaches.ended_inj {vm : Vm} {m : Machine W} {outcome outcome' : FrameOutcome W}
    (h : Reaches vm config m (.ended outcome)) (h' : Reaches vm config m (.ended outcome')) : outcome = outcome' := by
  obtain ⟨n, hn⟩ := h
  obtain ⟨n', hn'⟩ := h'
  have hboth : (step vm config)^[n'] ((step vm config)^[n] m) = (step vm config)^[n] ((step vm config)^[n'] m) := by
    rw [← Function.iterate_add_apply, ← Function.iterate_add_apply, Nat.add_comm]
  rw [hn, hn', steps_ended, steps_ended] at hboth
  exact Machine.ended.inj hboth

/-- What holds of the stack in a state of a call tree. While a frame runs, the stack is consistent with it and with the
callers that wait, and a frame that is run on it hands it back as it was. At the end the stack is as it was at the start. -/
def StackSound (h : Host) : Machine W → Prop
  | .running a _ callers =>
    a.frame.stack.Consistent h.config (a.frame.scope.own :: Waiting.roles callers) ∧
      ∀ (room : Nat) (s : Scope W) (i : Invocation) (amount : Amount) (gas : Gas),
        (runFrame h.vm h.config room s a.frame.stack i amount gas).stack = a.frame.stack
  | .ended outcome => outcome.stack = h.stack

/-- The stack is sound after any number of steps of the call tree of an order, whichever VM runs it. -/
theorem start_consistent {h : Host} {store : Store} {world : W} {order : Order} {s : Scope W}
    (hs : order.scope h.config store world = .ok s) (n : Nat) :
    ((step h.vm h.config)^[n] (start h order s)).StackSound h := by
  have hpaid : s.own.paid = order.amount := (Order.scope_ok hs).paid
  have hsound : (start h order s).Sound h.config :=
    sound_enter h.vm s order.invocation order.amount order.gasLimit (fun _ => rfl) rfl rfl
  have hseated : (start h order s).Seated h.config :=
    seated_enter h.vm order.invocation order.gasLimit hpaid rfl (List.forall_mem_nil _)
  have hsoundN := hsound.steps h.vm n
  have hseatedN := hseated.steps h.vm hsound n
  cases hstate : (step h.vm h.config)^[n] (start h order s) with
  | running a p callers =>
    rw [hstate] at hsoundN hseatedN
    obtain ⟨hentered, hsuspended⟩ := hsoundN
    have hbefore := hsuspended.consistent hentered.counted hseatedN.2
    have hconsistent := hentered.consistent hseatedN.1 hbefore
    refine ⟨hconsistent, fun room s' i amount gas => ?_⟩
    exact runFrame_stack h.vm h.config room s' hconsistent.counted i amount gas
  | ended outcome =>
    -- The only outcome is that of `runFrame`.
    have hreached : outcome = h.outermost order s := Reaches.ended_inj ⟨n, hstate⟩ (start_reaches h order s)
    show outcome.stack = h.stack
    rw [hreached]
    exact runFrame_stack h.vm h.config _ s (fun _ => rfl) order.invocation order.amount order.gasLimit

/-- After four steps the script has called itself, and both of its frames are active. -/
theorem looping_consistent :
    ∃ s : Scope Layers, Order.scope Host.shallow.config { ledger := .looping } (Layers.ofLedger .looping)
        (.execute .atZero) = .ok s ∧
      let m := (step Host.shallow.vm Host.shallow.config)^[4] (start Host.shallow (.execute .atZero) s)
      m.active = 2 ∧ m.StackSound Host.shallow := by
  have hactive : (Order.scope Host.shallow.config { ledger := .looping } (Layers.ofLedger .looping)
      (.execute .atZero)).toOption.any (fun s =>
        ((step Host.shallow.vm Host.shallow.config)^[4] (start Host.shallow (.execute .atZero) s)).active = 2) =
      true := by decide +kernel
  cases hs : Order.scope Host.shallow.config { ledger := .looping } (Layers.ofLedger .looping) (.execute .atZero) with
  | error why =>
    rw [hs] at hactive
    cases hactive
  | ok s =>
    rw [hs] at hactive
    exact ⟨s, rfl, of_decide_eq_true hactive, start_consistent hs 4⟩

end Machine

end ContractHost
