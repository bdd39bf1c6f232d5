import ContractHost.Proofs.Refinement
/-!
# What a run does to the ledger

The writes of a single command and the entry into a nested frame are the only ways in which a ledger changes during a
run. So what holds of these, and from one ledger to the next, holds of whole frames (`LedgerRule.runFrame`) and of
orders (`LedgerRule.carryOut`).
-/
namespace ContractHost

/-- A relation between a ledger and a later one that every command keeps. -/
structure LedgerRule (config : Config) (R : Ledger → Ledger → Prop) : Prop where
  refl : ∀ l, R l l
  trans : ∀ {l l' l''}, R l l' → R l' l'' → R l l''
  command : ∀ (s : Scope Ledger) (r : Request) (c : Command), r.check config.limits s.own.contract = .ok c →
    c.nesting = none → c.spends ≤ s.ownBalance → R s.world (s.writeAll (c.writes s)).world
  entry : ∀ (f : Frame Ledger) (r : Request) (c : Command) (s : Scope Ledger),
    r.check config.limits f.scope.own.contract = .ok c → f.Entry c s → R f.scope.world s.world

namespace LedgerRule

variable {config : Config} {R : Ledger → Ledger → Prop} (hR : LedgerRule config R)
include hR

theorem move {run : Runner Ledger} (hrun : ∀ s stack i amount gas, R s.world (run s stack i amount gas).world)
    {f : Frame Ledger} {r : Request} {c : Command} {out : Except HostError Settled × Frame Ledger}
    (hcheck : r.check config.limits f.scope.own.contract = .ok c) (h : f.Move config run c out) :
    R f.scope.world out.2.scope.world := by
  cases h with
  | done v hc hfunds => exact hR.command f.scope r c hcheck hc hfunds
  | failed e hc => exact hR.refl _
  | refused n why hc =>
    rw [Frame.record_scope]
    exact hR.refl _
  | ran n s hc hs =>
    simp only [Frame.record_scope, Frame.resume]
    split
    · exact hR.trans (hR.entry f r c s hcheck hs) (hrun s _ _ _ _)
    · exact hR.refl _

theorem play {run : Runner Ledger} (hrun : ∀ s stack i amount gas, R s.world (run s stack i amount gas).world)
    {α : Type} (p : Program α) (f : Frame Ledger) :
    R f.scope.world (Frame.play config run p f).2.2.scope.world := by
  refine Frame.play_induct (P := fun _ g => R f.scope.world g.scope.world) ?_ ?_ p [] f (hR.refl _)
  · intro _ g r e hg _
    rw [Frame.exchange_scope]
    exact hg
  · intro _ g r c out hg hcheck hmove
    rw [Frame.exchange_scope]
    exact hR.trans hg (hR.move hrun hcheck hmove)

theorem runFrame (vm : Vm) (room : Nat) (s : Scope Ledger) (stack : CallStack) (i : Invocation) (amount : Amount)
    (gas : Gas) : R s.world (runFrame vm config room s stack i amount gas).world := by
  refine runFrame_induct (P := fun s _ _ _ _ outcome => R s.world outcome.world) ?_ ?_ room s stack i amount gas
  · intro s stack i amount gas e
    exact hR.refl _
  · intro run hrun s stack i amount gas entered _
    exact hR.play hrun (vm.program i s.own.code gas) (.start s entered gas)

end LedgerRule

/-- A rule holds between the ledgers before and after an order if it holds when the outermost frame is entered. -/
theorem LedgerRule.carryOut {h : Host} {R : Ledger → Ledger → Prop} (hR : LedgerRule h.config R) {store : Store}
    {order : Order}
    (hentry : ∀ s : Scope Ledger, order.check h.config.limits = .ok () →
      Order.Entry h.config store store.ledger order s → R store.ledger s.world) :
    R store.ledger (h.carryOut store order).store.ledger := by
  have hend := h.carryOut_end store order
  generalize h.carryOut store order = c at hend ⊢
  cases hend with
  | barred e hcheck => exact hR.refl _
  | refused why hcheck hscope => exact hR.refl _
  | failed s hcheck hs hfail => exact hR.refl _
  | rejected s reason hcheck hs hok hstore => exact hR.refl _
  | committed s hcheck hs hok hstore => exact hR.trans (hentry s hcheck hs) (hR.runFrame h.vm _ s h.stack _ _ _)

end ContractHost
