import ContractHost.Proofs.Flow
import ContractHost.Proofs.Refinement
import ContractHost.Proofs.RequestInputs
import ContractHost.Proofs.ScriptRequests
import ContractHost.Proofs.Wealth
/-!
# Conservation of wealth

Amounts are moved and burnt but not made or lost, unless a program asks its host to credit or to debit an account. What
an order changes in the wealth of the ledger is therefore what the committed frames of its call tree credited and
debited.
-/
namespace ContractHost

/-! ## What commands do to the wealth -/

namespace Command

def credited : Command → Nat
  | .credit _ amount => amount
  | _ => 0

def debited : Command → Nat
  | .debit amount => amount
  | _ => 0

end Command

namespace Request

variable {limits : InputLimits} {self : Address} {r : Request} {c : Command}

theorem Reads.credited (h : r.Reads limits self c) : c.credited = r.credited := by
  cases h with
  | credit hpayee hamount => exact Input.amount_ok hamount
  | _ => rfl

theorem Reads.debited (h : r.Reads limits self c) : c.debited = r.debited := by
  cases h with
  | debit hamount => exact Input.amount_ok hamount
  | _ => rfl

end Request

namespace Scope

variable {s : Scope Ledger}

theorem wealth_transfer {payer : Address} (payee : Address) {amount : Nat} (h : amount ≤ s.balance payer) :
    (s.writeAll (s.transfer payer payee amount)).world.wealth = s.world.wealth := by
  let paid := s.world.write (.setBalance payer (s.balance payer - amount))
  have htaken : paid.wealth + amount = s.world.wealth := s.world.wealth_debit h
  have hgiven : (paid.write (.setBalance payee (paid.balance payee + amount))).wealth = paid.wealth + amount :=
    paid.wealth_credit payee amount
  rw [world_writeAll, ← htaken]
  exact hgiven

theorem wealth_receive {t : Scope Ledger} {sender : Address} {amount : Nat} (h : s.receive sender amount = .ok t) :
    t.world.wealth = s.world.wealth := by
  rcases receive_ok h with ⟨_, rfl⟩ | ⟨_, hfunds, rfl⟩
  · rfl
  · exact wealth_transfer s.own.contract hfunds

/-- A command without a nested frame changes the wealth by what it makes and what it takes away. -/
theorem wealth_command {c : Command} (h : c.spends ≤ s.ownBalance) :
    (s.writeAll (c.writes s)).world.wealth + c.debited = s.world.wealth + c.credited := by
  rw [world_writeAll]
  cases c with
  | setStorage key value => exact s.world.wealth_setStorage _ key value
  | removeStorage key => exact s.world.wealth_removeStorage _ key
  | event name args => exact s.world.wealth_pushEvent _
  | send payee amount =>
    have htransfer := wealth_transfer payee h
    rw [world_writeAll] at htransfer
    exact htransfer
  | debit amount => exact s.world.wealth_debit h
  | credit payee amount => exact s.world.wealth_credit payee amount
  | burn amount =>
    let paid := s.world.write (.setBalance s.own.contract (s.ownBalance - amount))
    have htaken : paid.wealth + amount = s.world.wealth := s.world.wealth_debit h
    have hburnt : (paid.write (.addBurnt amount)).wealth = paid.wealth + amount := paid.wealth_addBurnt amount
    exact hburnt.trans htaken
  | _ => rfl

end Scope

open CallRecord (flowAll)

/-! ## Frames -/

/-- A frame that has succeeded has changed the wealth by what the committed frames credited and debited. -/
def FrameOutcome.Conserves (start : Nat) (outcome : FrameOutcome Ledger) : Prop :=
  outcome.record.success → outcome.world.wealth + outcome.record.flow Exchange.debited =
    start + outcome.record.flow Exchange.credited

namespace Frame

/-- The wealth in a frame is what it was at the start but for what has been credited and debited so far. -/
def Balanced (initial : Nat) (xs : List Exchange) (f : Frame Ledger) : Prop :=
  f.scope.world.wealth + (sumOf Exchange.debited xs + flowAll Exchange.debited f.children) =
    initial + (sumOf Exchange.credited xs + flowAll Exchange.credited f.children)

variable {initial : Nat} {xs : List Exchange} {f g : Frame Ledger} {config : Config} {run : Runner Ledger}

theorem Entry.wealth {c : Command} {s : Scope Ledger} (h : f.Entry c s) : s.world.wealth = f.scope.world.wealth := by
  cases h with
  | call call b code s hcode hmethod hstack hs =>
    exact Scope.wealth_receive (s := f.scope.child call.target (b :: code) call.amount) hs
  | deploy d s hcode hstack hs =>
    obtain ⟨t, ht, rfl⟩ := Scope.forDeploy_ok hs
    have hpaid := Scope.wealth_receive (s := f.scope.child d.address d.code d.amount) ht
    exact (t.world.wealth_setCode d.address d.code).trans hpaid

theorem Balanced.exchange (h : f.Balanced initial xs) (hchildren : g.children = f.children) (r : Request)
    (settled : Except HostError Settled)
    (hworld : g.scope.world.wealth + (f.exchange r (settled, g)).1.debited =
      f.scope.world.wealth + (f.exchange r (settled, g)).1.credited) :
    (f.exchange r (settled, g)).2.Balanced initial (xs ++ [(f.exchange r (settled, g)).1]) := by
  simp only [Balanced] at h ⊢
  rw [exchange_scope, exchange_children, hchildren, sumOf_concat, sumOf_concat]
  show g.scope.world.wealth + _ = _
  omega

theorem Balanced.nest (h : f.Balanced initial xs) {t : CallRecord} (hchildren : g.children = f.children ++ [t])
    (r : Request) (settled : Except HostError Settled) (hcredited : r.credited = 0) (hdebited : r.debited = 0)
    (hworld : g.scope.world.wealth + t.flow Exchange.debited = f.scope.world.wealth + t.flow Exchange.credited) :
    (f.exchange r (settled, g)).2.Balanced initial (xs ++ [(f.exchange r (settled, g)).1]) := by
  have hmade : (f.exchange r (settled, g)).1.credited = 0 := by simp [Exchange.credited, hcredited]
  have htaken : (f.exchange r (settled, g)).1.debited = 0 := by simp [Exchange.debited, hdebited]
  simp only [Balanced] at h ⊢
  rw [exchange_scope, exchange_children, hchildren, sumOf_concat, sumOf_concat,
    CallRecord.flowAll_append, CallRecord.flowAll_append, hmade, htaken]
  show g.scope.world.wealth + _ = _
  omega

theorem exchange_error_isOk (f g : Frame Ledger) (r : Request) (e : HostError) :
    (f.exchange r (.error e, g)).1.reply.isOk = false := by
  have hstatus := e.status_ne_ok
  simp [Frame.exchange, Reply.failed, Reply.isOk, hstatus]

theorem Balanced.failed (h : f.Balanced initial xs) (hscope : g.scope = f.scope) (hchildren : g.children = f.children)
    (r : Request) (e : HostError) :
    (f.exchange r (.error e, g)).2.Balanced initial (xs ++ [(f.exchange r (.error e, g)).1]) := by
  apply h.exchange hchildren
  have hfailed := exchange_error_isOk f g r e
  rw [hscope, Exchange.debited, Exchange.credited, hfailed]
  rfl

theorem Balanced.move (hrun : ∀ s stack i amount gas, (run s stack i amount gas).Conserves s.world.wealth)
    (h : f.Balanced initial xs) {r : Request} {c : Command} {out : Except HostError Settled × Frame Ledger}
    (hcheck : r.check config.limits f.scope.own.contract = .ok c) (hmove : f.Move config run c out) :
    (f.exchange r out).2.Balanced initial (xs ++ [(f.exchange r out).1]) := by
  have hreads := Request.check_reads hcheck
  have hcredited := hreads.credited
  have hdebited := hreads.debited
  have hneutral : ∀ n, c.nesting = some n → r.credited = 0 ∧ r.debited = 0 := by
    intro n hn
    rw [← hcredited, ← hdebited]
    cases c with
    | call call => exact ⟨rfl, rfl⟩
    | deploy d => exact ⟨rfl, rfl⟩
    | _ => cases hn
  cases hmove with
  | done v hc hfunds =>
    have hworld := f.scope.wealth_command hfunds
    rw [hcredited, hdebited] at hworld
    exact h.exchange (g := f.written c) rfl r (.ok (.value v)) hworld
  | failed e hc => exact h.failed (g := f.charged c) rfl rfl r e
  | refused n why hc =>
    obtain ⟨hmade, htaken⟩ := hneutral n hc
    let action := n.invocation.action n.amount (Gas.least n.gas f.meter.remaining)
    let recorded := f.record (CallRecord.refused config.maxArgsLength.toNat action why)
    have hscope : recorded.2.scope = f.scope := record_scope f _
    apply h.nest (g := recorded.2) (record_children f _) r recorded.1 hmade htaken
    rw [CallRecord.flow_of_failed _ rfl, CallRecord.flow_of_failed _ rfl, hscope]
  | ran n s hc hs =>
    obtain ⟨hmade, htaken⟩ := hneutral n hc
    let outcome := run s f.stack n.invocation n.amount (Gas.least n.gas f.meter.remaining)
    let recorded := (f.resume outcome).record outcome.record
    have hscope : recorded.2.scope = (f.resume outcome).scope := record_scope _ _
    apply h.nest (g := recorded.2) (record_children _ _) r recorded.1 hmade htaken
    rw [hscope, resume]
    by_cases hok : outcome.record.success
    · have hworld := hrun s f.stack n.invocation n.amount (Gas.least n.gas f.meter.remaining) hok
      simp only [hok, if_true]
      rw [hs.wealth] at hworld
      exact hworld
    · -- The writes of a frame that fails are dropped, and so is all that flowed below it.
      have hfailed : outcome.record.success = false := by simpa using hok
      rw [CallRecord.flow_of_failed _ hfailed, CallRecord.flow_of_failed _ hfailed]
      simp only [hok, Bool.false_eq_true, if_false]

theorem play_balanced (hrun : ∀ s stack i amount gas, (run s stack i amount gas).Conserves s.world.wealth)
    {α : Type} (p : Program α) (h : f.Balanced initial []) :
    (play config run p f).2.2.Balanced initial (play config run p f).1 := by
  refine play_induct (P := fun xs f => f.Balanced initial xs) ?_ ?_ p [] f h
  · intro xs f r e h _
    exact h.failed rfl rfl r e
  · intro xs f r c out h hcheck hmove
    exact h.move hrun hcheck hmove

end Frame

/-! ## Call trees -/

theorem runFrame_conserves (vm : Vm) (config : Config) (room : Nat) (s : Scope Ledger) (stack : CallStack)
    (i : Invocation) (amount : Amount) (gas : Gas) :
    (runFrame vm config room s stack i amount gas).Conserves s.world.wealth := by
  refine runFrame_induct (P := fun s _ _ _ _ outcome => outcome.Conserves s.world.wealth) ?_ ?_ room s stack i amount gas
  · intro s stack i amount gas e hok
    cases hok
  · intro run hrun s stack i amount gas entered _ hok
    let played := Frame.play config run (vm.program i s.own.code gas) (.start s entered gas)
    have hstart : (Frame.start s entered gas).Balanced s.world.wealth [] := rfl
    have hplay : played.2.2.Balanced s.world.wealth played.1 := Frame.play_balanced hrun _ hstart
    have hflow : ∀ g, (runEntered vm config run entered s stack i amount gas).record.flow g =
        sumOf g played.1 + flowAll g played.2.2.children := fun g => CallRecord.flow_of_success g hok
    rw [hflow, hflow]
    exact hplay

/-! ## Orders -/

/-- A figure of exchanges, added up over the committed frames of an order. -/
def Completion.flow (g : Exchange → Nat) (c : Completion) : Nat :=
  (c.record.map (CallRecord.flow g)).getD 0

theorem Order.Entry.wealth {config : Config} {store : Store} {order : Order} {s : Scope Ledger}
    (h : Order.Entry config store store.ledger order s) : s.world.wealth = store.ledger.wealth := by
  cases h with
  | execute o b code s hcode hmethod hs => exact Scope.wealth_receive hs
  | deploy o s hcode hs => exact (s.world.wealth_setCode o.address o.code).trans (Scope.wealth_receive hs)

/-- The wealth after an order is the wealth before, with what the committed frames credited and without what they
debited. -/
theorem Host.carryOut_conserves (h : Host) (l : Ledger) (order : Order) :
    (h.carryOut { ledger := l } order).store.ledger.wealth + (h.carryOut { ledger := l } order).flow Exchange.debited =
      l.wealth + (h.carryOut { ledger := l } order).flow Exchange.credited := by
  have hend := h.carryOut_end { ledger := l } order
  generalize h.carryOut { ledger := l } order = c at hend ⊢
  cases hend with
  | barred e hcheck => rfl
  | refused why hcheck hscope => rfl
  | failed s hcheck hs hfail =>
    show l.wealth + (h.outermost order s).record.flow _ = l.wealth + (h.outermost order s).record.flow _
    rw [CallRecord.flow_of_failed _ hfail, CallRecord.flow_of_failed _ hfail]
  | rejected s reason hcheck hs hok hstore => cases hstore
  | committed s hcheck hs hok hstore =>
    have hwealth := runFrame_conserves h.vm h.config h.config.maxCallDepth.toNat s h.stack order.invocation order.amount
      order.gasLimit hok
    rw [hs.wealth] at hwealth
    exact hwealth

theorem Host.carryOut_flow {h : Host} {P : Request → Prop} (hvm : ∀ i code gas, (h.vm.program i code gas).Asks P)
    {g : Exchange → Nat} (hg : ∀ x, P x.request → g x = 0) (store : Store) (order : Order) :
    (h.carryOut store order).flow g = 0 := by
  have hend := h.carryOut_end store order
  generalize h.carryOut store order = c at hend ⊢
  have hrun : ∀ s : Scope Ledger, (h.outermost order s).record.flow g = 0 := fun s =>
    runFrame_flow hvm hg h.config _ s h.stack _ _ _
  cases hend with
  | barred e hcheck => rfl
  | refused why hcheck hscope => exact CallRecord.flow_of_failed g rfl
  | failed s hcheck hs hfail => exact hrun s
  | rejected s reason hcheck hs hok hstore => exact hrun s
  | committed s hcheck hs hok hstore => exact hrun s

/-- An order changes the wealth of a ledger by what the committed frames credited and debited, so an order that runs
scripts does not change it at all. -/
theorem Host.carryOut_wealth (h : Host) (l : Ledger) (order : Order) :
    (h.carryOut { ledger := l } order).store.ledger.wealth + (h.carryOut { ledger := l } order).flow Exchange.debited =
        l.wealth + (h.carryOut { ledger := l } order).flow Exchange.credited ∧
      ∀ cost, (carryOut { h with vm := Script.vm cost } { ledger := l } order).store.ledger.wealth = l.wealth := by
  refine ⟨h.carryOut_conserves l order, fun cost => ?_⟩
  let scripts : Host := { h with vm := Script.vm cost }
  have hconserves := scripts.carryOut_conserves l order
  have hasks : ∀ i code gas, (scripts.vm.program i code gas).Asks Request.Neutral := Script.asks_vm cost
  have hcredited : (scripts.carryOut { ledger := l } order).flow Exchange.credited = 0 :=
    carryOut_flow hasks (fun x hx => by simp [Exchange.credited, hx.1]) _ order
  have hdebited : (scripts.carryOut { ledger := l } order).flow Exchange.debited = 0 :=
    carryOut_flow hasks (fun x hx => by simp [Exchange.debited, hx.2]) _ order
  rw [hcredited, hdebited] at hconserves
  exact hconserves

end ContractHost
