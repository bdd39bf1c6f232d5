import ContractHost.Proofs.Flattening
import ContractHost.Proofs.FrameSteps
/-!
# Frames on layers and frames in place

A frame that runs on layers and one that runs on the flat ledger ask for the same, are told the same and are recorded
alike, and the flat ledger of the first is the ledger of the second after every request. The induction is on the program
within the induction on the room of the stack; a nested frame that succeeds is where the layers are folded.
-/
namespace ContractHost

namespace Layers

theorem Above.writeAll (s : Scope Layers) (ws : List Write) : Above s.world (s.writeAll ws).world := by
  induction ws generalizing s with
  | nil => exact .refl _
  | cons x ws ih => exact (Above.write s.world x).trans (ih (s.write x))

theorem Above.receive {s t : Scope Layers} {sender : Address} {amount : Nat} (h : s.receive sender amount = .ok t) :
    Above s.world t.world := by
  rcases Scope.receive_ok h with ⟨_, rfl⟩ | ⟨_, _, rfl⟩
  · exact .refl _
  · exact .writeAll s _

theorem Above.forCall {s t : Scope Layers} {target : Address} {code : Bytes} {amount : Nat}
    (h : s.forCall target code amount = .ok t) : Above (World.child s.world) t.world :=
  Above.receive h

theorem Above.forDeploy {s t : Scope Layers} {target : Address} {code : Bytes} {amount : Nat}
    (h : s.forDeploy target code amount = .ok t) : Above (World.child s.world) t.world := by
  obtain ⟨u, hu, rfl⟩ := Scope.forDeploy_ok h
  exact (Above.forCall hu).trans (Above.write u.world _)

end Layers

open Layers (Above)

/-! ## A frame touches no layer but its own -/

namespace Frame

theorem Entry.above {f : Frame Layers} {c : Command} {s : Scope Layers} (h : f.Entry c s) :
    Above (World.child f.scope.world) s.world := by
  cases h with
  | call call b code s hcode hmethod hstack hs => exact .forCall hs
  | deploy d s hcode hstack hs => exact .forDeploy hs

theorem Move.above {config : Config} {run : Runner Layers} {f : Frame Layers} {c : Command}
    {out : Except HostError Settled × Frame Layers} (h : f.Move config run c out) :
    Above f.scope.world out.2.scope.world := by
  cases h with
  | done v hc hfunds => exact .writeAll f.scope _
  | failed e hc => exact .refl _
  | refused n why hc =>
    rw [record_scope]
    exact .refl _
  | ran n s hc hs =>
    simp only [record_scope, resume]
    split
    · exact .join _ _
    · exact .refl _

theorem play_above {α : Type} (config : Config) (run : Runner Layers) (p : Program α) (f : Frame Layers) :
    Above f.scope.world (play config run p f).2.2.scope.world := by
  refine play_induct (P := fun _ g => Above f.scope.world g.scope.world) ?_ ?_ p [] f (.refl _)
  · intro _ g r e hg _
    rw [exchange_scope]
    exact hg
  · intro _ g r c out hg _ hmove
    rw [exchange_scope]
    exact hg.trans hmove.above

end Frame

theorem runFrame_above (vm : Vm) (config : Config) (room : Nat) (s : Scope Layers) (stack : CallStack)
    (i : Invocation) (amount : Amount) (gas : Gas) :
    Above s.world (runFrame vm config room s stack i amount gas).world := by
  refine runFrame_induct (P := fun s _ _ _ _ outcome => Above s.world outcome.world) ?_ ?_ room s stack i amount gas
  · intro s stack i amount gas e
    exact .refl _
  · intro run _ s stack i amount gas entered _
    exact Frame.play_above config run (vm.program i s.own.code gas) (.start s entered gas)

/-! ## The simulation -/

def Frame.flat (f : Frame Layers) : Frame Ledger :=
  { scope := f.scope.flat, meter := f.meter, stack := f.stack, children := f.children, ranOut := f.ranOut }

def FrameOutcome.flat (o : FrameOutcome Layers) : FrameOutcome Ledger :=
  { world := o.world.flat, stack := o.stack, record := o.record }

/-- A way to run frames on layers, and one that does the same in place. -/
structure Simulates (run : Runner Layers) (run' : Runner Ledger) : Prop where
  flat : ∀ s stack i amount gas, run' s.flat stack i amount gas = (run s stack i amount gas).flat
  above : ∀ s stack i amount gas, Above s.world (run s stack i amount gas).world

namespace Frame

variable (f : Frame Layers)

theorem flat_record (t : CallRecord) : f.flat.record t = Prod.map id flat (f.record t) := by
  simp only [record, flat]
  split <;> rfl

theorem flat_moveTo (r : Except HostError (Scope Layers) × Meter) :
    f.flat.moveTo (Prod.map (Except.map Scope.flat) id r) = Prod.map id flat (f.moveTo r) := by
  obtain ⟨(e | s), m⟩ := r <;> rfl

theorem flat_precheck (target : Address) (amount : Nat) : f.flat.precheck target amount = f.precheck target amount := by
  have hfunds : f.flat.scope.checkFunds amount = f.scope.checkFunds amount := f.scope.flat_checkFunds amount
  rw [precheck, precheck, hfunds]
  rfl

theorem flat_callScope (call : Call) : f.flat.callScope call = (f.callScope call).map (Except.map Scope.flat) := by
  have hcode : f.flat.scope.code call.target = f.scope.code call.target := f.scope.flat_code call.target
  simp only [callScope, hcode]
  split
  · rfl
  · rfl
  · rename_i b code _
    split
    · rfl
    · have hscope : f.flat.scope.forCall call.target (b :: code) call.amount =
          (f.scope.forCall call.target (b :: code) call.amount).map Scope.flat := f.scope.flat_forCall _ _ _
      rw [hscope, flat_precheck]
      cases f.precheck call.target call.amount <;> rfl

theorem flat_deploymentScope (d : Deployment) :
    f.flat.deploymentScope d = (f.deploymentScope d).map (Except.map Scope.flat) := by
  have hcode : f.flat.scope.code d.address = f.scope.code d.address := f.scope.flat_code d.address
  simp only [deploymentScope, hcode]
  split
  · rfl
  · have hscope : f.flat.scope.forDeploy d.address d.code d.amount =
        (f.scope.forDeploy d.address d.code d.amount).map Scope.flat := f.scope.flat_forDeploy _ _ _
    rw [hscope, flat_precheck]
    cases f.precheck d.address d.amount <;> rfl

variable {run : Runner Layers} {run' : Runner Ledger}

theorem flat_resume {outcome : FrameOutcome Layers} (h : Above (World.child f.scope.world) outcome.world) :
    f.flat.resume outcome.flat = (f.resume outcome).flat := by
  have hjoin : World.join f.scope.world.flat outcome.world.flat = (World.join f.scope.world outcome.world).flat :=
    Layers.join_flat h
  by_cases hok : outcome.record.success
  · simp only [resume, FrameOutcome.flat, flat, hok, if_true, Scope.join, Scope.flat, hjoin]
  · simp only [resume, FrameOutcome.flat, flat, hok, Bool.false_eq_true, if_false]

theorem flat_nest (config : Config) (hrun : Simulates run run')
    (entry : Except Refusal (Except HostError (Scope Layers)))
    (hentry : ∀ s, entry = .ok (.ok s) → Above (World.child f.scope.world) s.world) (i : Invocation) (amount : Nat)
    (offered : UInt64) :
    f.flat.nest config run' (entry.map (Except.map Scope.flat)) i amount offered =
      Prod.map id flat (f.nest config run entry i amount offered) := by
  obtain (why | e | s) := entry
  · exact f.flat_record _
  · rfl
  · let gas := Gas.least offered f.meter.remaining
    have hinner : run' s.flat f.stack i amount gas = (run s f.stack i amount gas).flat := hrun.flat s f.stack i amount gas
    have habove := (hentry s rfl).trans (hrun.above s f.stack i amount gas)
    calc f.flat.nest config run' (.ok (.ok s.flat)) i amount offered
        = (f.flat.resume (run' s.flat f.stack i amount gas)).record (run' s.flat f.stack i amount gas).record := rfl
      _ = ((f.resume (run s f.stack i amount gas)).flat).record (run s f.stack i amount gas).record := by
          rw [hinner, f.flat_resume habove]
          rfl
      _ = Prod.map id flat (f.nest config run (.ok (.ok s)) i amount offered) := flat_record _ _

theorem flat_opening (c : Command) : f.flat.opening c = (f.opening c).map (Except.map Scope.flat) := by
  cases c with
  | call call => exact f.flat_callScope call
  | deploy d => exact f.flat_deploymentScope d
  | _ => rfl

theorem flat_perform_nesting (config : Config) (hrun : Simulates run run') {c : Command} {n : Command.Nesting}
    (hn : c.nesting = some n) : f.flat.perform config run' c = Prod.map id flat (f.perform config run c) := by
  rw [perform_nest config run f hn, perform_nest config run' f.flat hn, flat_opening]
  exact f.flat_nest config hrun _ (fun s hs => (opening_entry hs).above) _ _ _

theorem flat_perform (config : Config) (hrun : Simulates run run') (c : Command) :
    f.flat.perform config run' c = Prod.map id flat (f.perform config run c) := by
  cases c with
  | setStorage key value =>
    exact (congrArg f.flat.moveTo (f.scope.flat_setStorage f.meter key value)).trans (f.flat_moveTo _)
  | removeStorage key =>
    exact (congrArg f.flat.moveTo (f.scope.flat_removeStorage f.meter key)).trans (f.flat_moveTo _)
  | send payee amount =>
    exact (congrArg f.flat.moveTo (f.scope.flat_send f.meter payee amount)).trans (f.flat_moveTo _)
  | debit amount =>
    exact (congrArg (fun r => f.flat.moveTo (r, f.meter)) (f.scope.flat_debit amount)).trans
      (f.flat_moveTo (f.scope.debit amount, f.meter))
  | credit payee amount =>
    exact (congrArg (fun s => f.flat.moveTo (.ok s, f.meter)) (f.scope.flat_credit payee amount)).trans
      (f.flat_moveTo (.ok (f.scope.credit payee amount), f.meter))
  | burn amount =>
    exact (congrArg (fun r => f.flat.moveTo (r, f.meter)) (f.scope.flat_burn amount)).trans
      (f.flat_moveTo (f.scope.burn amount, f.meter))
  | event name args =>
    exact (congrArg f.flat.moveTo (f.scope.flat_emit f.meter name args)).trans (f.flat_moveTo _)
  | readStorage contract key =>
    have hread : f.flat.scope.readStorage f.flat.meter contract key = f.scope.readStorage f.meter contract key :=
      f.scope.flat_readStorage f.meter contract key
    simp only [perform, hread]
    rfl
  | balance a =>
    have hbalance : f.flat.scope.balance a = f.scope.balance a := f.scope.flat_balance a
    simp only [perform, hbalance]
    rfl
  | code a =>
    have hcode : f.flat.scope.code a = f.scope.code a := f.scope.flat_code a
    simp only [perform, hcode]
    rfl
  | fact x => cases x <;> rfl
  | call call => exact f.flat_perform_nesting config hrun (c := .call call) rfl
  | deploy d => exact f.flat_perform_nesting config hrun (c := .deploy d) rfl
  | _ => rfl

theorem flat_exchange (r : Request) (out : Except HostError Settled × Frame Layers) :
    f.flat.exchange r (Prod.map id flat out) = Prod.map id flat (f.exchange r out) := by
  obtain ⟨(e | v | t), after⟩ := out <;> rfl

theorem flat_answer (config : Config) (hrun : Simulates run run') (r : Request) :
    f.flat.answer config run' r = Prod.map id flat (f.answer config run r) := by
  have hself : f.flat.scope.own.contract = f.scope.own.contract := rfl
  unfold answer
  rw [hself, ← flat_exchange]
  cases r.check config.limits f.scope.own.contract with
  | error e => rfl
  | ok c => exact congrArg (f.flat.exchange r) (f.flat_perform config hrun c)

theorem flat_play {α : Type} (config : Config) (hrun : Simulates run run') (p : Program α) :
    play config run' p f.flat = Prod.map id (Prod.map id flat) (play config run p f) := by
  induction p generalizing f with
  | done a => rfl
  | crash reason => rfl
  | ask r next ih =>
    simp only [play, flat_answer f config hrun]
    simp only [Prod.map, id, ih]

end Frame

theorem flat_runEntered (vm : Vm) (config : Config) {run : Runner Layers} {run' : Runner Ledger}
    (hrun : Simulates run run') (entered : CallStack) (s : Scope Layers) (stack : CallStack) (i : Invocation)
    (amount : Nat) (gas : UInt64) :
    runEntered vm config run' entered s.flat stack i amount gas =
      (runEntered vm config run entered s stack i amount gas).flat := by
  have hplay := (Frame.start s entered gas).flat_play config hrun (vm.program i s.own.code gas)
  simp only [runEntered]
  rw [show Frame.start s.flat entered gas = (Frame.start s entered gas).flat from rfl]
  rw [Scope.flat_own, hplay]
  rfl

/-- Running a frame on layers and flattening them is running it on the flat ledger. -/
theorem flat_runFrame (vm : Vm) (config : Config) (room : Nat) (s : Scope Layers) (stack : CallStack)
    (i : Invocation) (amount : Nat) (gas : UInt64) :
    runFrame vm config room s.flat stack i amount gas = (runFrame vm config room s stack i amount gas).flat := by
  induction room generalizing s stack i amount gas with
  | zero => rfl
  | succ room ih =>
    have hrun : Simulates (runFrame vm config room) (runFrame vm config room) := ⟨ih, runFrame_above vm config room⟩
    simp only [runFrame, Scope.flat_own]
    cases stack.enter s.own.contract s.own.caller amount with
    | error e => rfl
    | ok entered => exact flat_runEntered vm config hrun entered s stack i amount gas

end ContractHost
