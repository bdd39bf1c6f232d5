import ContractHost.Order
import ContractHost.Proofs.Simulation
/-!
# Orders on layers and orders in place

A host runs an order on layers over the ledger of its store and applies the outermost overlay in the end. Nobody can
tell this from running the order on the ledger itself, with a copy to go back to for every frame.
-/
namespace ContractHost

open Layers (Above)

/-! ## The outermost scope -/

namespace Order

/-- The scopes in which the outermost frame of an order may be run. -/
inductive Entry {W : Type} [World W] (config : Config) (store : Store) (world : W) : Order → Scope W → Prop
  | execute (o : ExecuteOrder) (b : UInt8) (code : Bytes) (s : Scope W)
      (hcode : o.code.or (store.ledger.code o.contract) = some (b :: code)) (hmethod : o.method ≠ constructorName)
      (hs : (Scope.start world store config.gas o.contract o.caller (b :: code)).receive o.caller o.amount = .ok s) :
      Entry config store world (.execute o) s
  | deploy (o : DeployOrder) (s : Scope W) (hcode : store.ledger.code o.address = none)
      (hs : (Scope.start world store config.gas o.address o.caller o.code).receive o.caller o.amount = .ok s) :
      Entry config store world (.deploy o) (s.write (.setCode o.address o.code))

theorem scope_ok {W : Type} [World W] {order : Order} {config : Config} {store : Store} {world : W} {s : Scope W}
    (h : order.scope config store world = .ok s) : Entry config store world order s := by
  cases order with
  | execute o =>
    simp only [scope, ExecuteOrder.scope] at h
    split at h
    · cases h
    · cases h
    · rename_i b code hcode
      split at h
      · cases h
      · rename_i hmethod
        exact .execute o b code s hcode hmethod (mapError_ok h)
  | deploy o =>
    simp only [scope, DeployOrder.scope] at h
    split at h
    · cases h
    · rename_i hcode
      obtain ⟨t, hs, h⟩ := bind_ok h
      cases h
      have hpaid := mapError_ok hs
      have hcontract : t.own.contract = o.address := Scope.receive_contract hpaid
      rw [Scope.installCode, hcontract]
      exact .deploy o t hcode hpaid

theorem Entry.above {config : Config} {store : Store} {world : Layers} {order : Order} {s : Scope Layers}
    (h : Entry config store world order s) : Above world s.world := by
  cases h with
  | execute o b code s hcode hmethod hs => exact Above.receive hs
  | deploy o s hcode hs => exact (Above.receive hs).trans (Above.write s.world _)

theorem Entry.store {W : Type} [World W] {config : Config} {store : Store} {world : W} {order : Order} {s : Scope W}
    (h : Entry config store world order s) : s.store = store := by
  cases h with
  | execute o b code s hcode hmethod hs => exact (Scope.receive_kin hs).store
  | deploy o s hcode hs => exact (Scope.receive_kin hs).store

variable (order : Order) (config : Config) (store : Store)

private theorem start_flat (l : Ledger) (schedule : GasSchedule) (contract caller : Address) (code : List UInt8) :
    Scope.start l store schedule contract caller code =
      (Scope.start (Layers.ofLedger l) store schedule contract caller code).flat := by
  simp only [Scope.start, Scope.flat, Layers.flat_ofLedger]

theorem scope_flat :
    order.scope config store store.ledger =
      (order.scope config store (Layers.ofLedger store.ledger)).map Scope.flat := by
  cases order with
  | execute o =>
    simp only [scope, ExecuteOrder.scope]
    split
    · rfl
    · rfl
    · rename_i b code _
      split
      · rfl
      · rw [start_flat, Scope.flat_receive]
        cases (Scope.start (Layers.ofLedger store.ledger) store config.gas o.contract o.caller (b :: code)).receive
          o.caller o.amount <;> rfl
  | deploy o =>
    simp only [scope, DeployOrder.scope]
    split
    · rfl
    · rw [start_flat, Scope.flat_receive]
      cases (Scope.start (Layers.ofLedger store.ledger) store config.gas o.address o.caller o.code).receive
        o.caller o.amount with
      | error e => rfl
      | ok s => exact congrArg Except.ok (s.flat_installCode o.code)

end Order

/-! ## The end of an order -/

theorem FrameOutcome.record_flat (outcome : FrameOutcome Layers) : outcome.flat.record = outcome.record :=
  rfl

namespace Host

variable {h : Host} {store : Store} {order : Order}

theorem flat_outermost (s : Scope Layers) : h.outermost order s.flat = (h.outermost order s).flat :=
  flat_runFrame h.vm h.config _ s h.stack order.invocation order.amount order.gasLimit

/-- The outermost overlay of an order holds all that the order changes. -/
theorem outermost_flat {s : Scope Layers} (hs : Order.Entry h.config store (Layers.ofLedger store.ledger) order s) :
    (h.outermost order s).flat.world = store.ledger.apply (h.outermost order s).world.own := by
  have habove : Above (Layers.ofLedger store.ledger) (h.outermost order s).world :=
    hs.above.trans (runFrame_above h.vm h.config _ s h.stack order.invocation order.amount order.gasLimit)
  have hflat := Layers.flat_eq_apply habove.callers
  rw [habove.ledger] at hflat
  exact hflat

theorem finish_failed {outcome : FrameOutcome Layers} (hfail : outcome.record.success = false)
    (deployed : Option Address) :
    finish store outcome deployed = { answer := .ok (outcome.tell [] none), store, record := some outcome.record } := by
  simp only [finish, hfail, Bool.false_eq_true, if_false]

theorem finish_refusing {reason : String} (hstore : store.refusal = some reason) {outcome : FrameOutcome Layers}
    (hok : outcome.record.success = true) (deployed : Option Address) :
    finish store outcome deployed =
      { answer := .error (.ledger (.rejected reason)), store, record := some outcome.record } := by
  simp only [finish, hok, if_true, Store.apply, hstore]

theorem finish_committed (hstore : store.refusal = none) {outcome : FrameOutcome Layers}
    (hok : outcome.record.success = true) (hworld : outcome.flat.world = store.ledger.apply outcome.world.own)
    (deployed : Option Address) :
    finish store outcome deployed =
      { answer := .ok (outcome.flat.tell (outcome.flat.world.events.drop store.ledger.events.length) deployed)
        store := { store with ledger := outcome.flat.world }
        record := some outcome.flat.record } := by
  have hevents : outcome.flat.world.events.drop store.ledger.events.length = outcome.world.own.events := by
    rw [hworld, Ledger.events_apply, List.drop_left]
  simp only [finish, hok, if_true, Store.apply, hstore, hevents]
  rw [hworld]
  rfl

theorem carryOut_of_scope {s : Scope Layers} (hcheck : order.check h.config.limits = .ok ())
    (hscope : order.scope h.config store (Layers.ofLedger store.ledger) = .ok s) :
    h.carryOut store order = finish store (h.outermost order s) order.deployed := by
  rw [carryOut_def, hcheck]
  show h.run store (order.scope h.config store (Layers.ofLedger store.ledger)) _ _ _ _ = _
  rw [hscope]
  rfl

/-- What comes of an order, told by its run on the ledger itself. -/
inductive End (h : Host) (store : Store) (order : Order) : Completion → Prop
  | barred (e : HostError) (hcheck : order.check h.config.limits = .error e) :
      End h store order { answer := .error e, store, record := none }
  | refused (why : Refusal) (hcheck : order.check h.config.limits = .ok ())
      (hscope : order.scope h.config store store.ledger = .error why) :
      End h store order (h.refuse store (order.invocation.action order.amount order.gasLimit) why)
  | failed (s : Scope Ledger) (hcheck : order.check h.config.limits = .ok ())
      (hs : Order.Entry h.config store store.ledger order s) (hfail : (h.outermost order s).record.success = false) :
      End h store order
        { answer := .ok ((h.outermost order s).tell [] none), store, record := some (h.outermost order s).record }
  | rejected (s : Scope Ledger) (reason : String) (hcheck : order.check h.config.limits = .ok ())
      (hs : Order.Entry h.config store store.ledger order s) (hok : (h.outermost order s).record.success = true)
      (hstore : store.refusal = some reason) :
      End h store order
        { answer := .error (.ledger (.rejected reason)), store, record := some (h.outermost order s).record }
  | committed (s : Scope Ledger) (hcheck : order.check h.config.limits = .ok ())
      (hs : Order.Entry h.config store store.ledger order s) (hok : (h.outermost order s).record.success = true)
      (hstore : store.refusal = none) :
      End h store order
        { answer := .ok ((h.outermost order s).tell
            ((h.outermost order s).world.events.drop store.ledger.events.length) order.deployed)
          store := { store with ledger := (h.outermost order s).world }
          record := some (h.outermost order s).record }

theorem carryOut_end (h : Host) (store : Store) (order : Order) : h.End store order (h.carryOut store order) := by
  rw [carryOut_def]
  cases hcheck : order.check h.config.limits with
  | error e => exact .barred e hcheck
  | ok u =>
    cases hs : order.scope h.config store (Layers.ofLedger store.ledger) with
    | error why =>
      have hscope : order.scope h.config store store.ledger = .error why := by
        rw [Order.scope_flat, hs]
        rfl
      exact .refused why hcheck hscope
    | ok s =>
      have hentry := Order.scope_ok hs
      have hflat : Order.Entry h.config store store.ledger order s.flat := by
        apply Order.scope_ok
        rw [Order.scope_flat, hs]
        rfl
      have hworld := outermost_flat hentry
      -- Both runs have the same record, so they succeed or fail together.
      show h.End store order (finish store (h.outermost order s) order.deployed)
      cases hok : (h.outermost order s).record.success with
      | false =>
        have hend : h.End store order _ := .failed s.flat hcheck hflat (by rw [flat_outermost]; exact hok)
        rw [flat_outermost] at hend
        rw [finish_failed hok]
        exact hend
      | true =>
        cases hstore : store.refusal with
        | some reason =>
          have hend : h.End store order _ := .rejected s.flat reason hcheck hflat (by rw [flat_outermost]; exact hok) hstore
          rw [flat_outermost] at hend
          rw [finish_refusing hstore hok]
          exact hend
        | none =>
          have hend : h.End store order _ := .committed s.flat hcheck hflat (by rw [flat_outermost]; exact hok) hstore
          rw [flat_outermost] at hend
          rw [finish_committed hstore hok hworld]
          exact hend

/-- The record of an order is that of its outermost frame, refused or run. -/
theorem carryOut_record {t : CallRecord} (ht : (h.carryOut store order).record = some t) :
    order.check h.config.limits = .ok () ∧
      ((∃ why, t = CallRecord.refused h.config.maxArgsLength.toNat
        (order.invocation.action order.amount order.gasLimit) why) ∨
      ∃ s : Scope Ledger, Order.Entry h.config store store.ledger order s ∧ t = (h.outermost order s).record) := by
  have hend := h.carryOut_end store order
  generalize h.carryOut store order = c at hend ht
  cases hend with
  | barred e hcheck => cases ht
  | refused why hcheck hscope =>
    cases ht
    exact ⟨hcheck, .inl ⟨why, rfl⟩⟩
  | failed s hcheck hs | rejected s reason hcheck hs | committed s hcheck hs =>
    cases ht
    exact ⟨hcheck, .inr ⟨s, hs, rfl⟩⟩

theorem carryOut_answer {outcome : Outcome} (ho : (h.carryOut store order).answer = .ok outcome) :
    ∃ t, (h.carryOut store order).record = some t ∧ outcome.result = t.result ∧ outcome.status = t.label.status := by
  have hend := h.carryOut_end store order
  generalize h.carryOut store order = c at hend ho
  cases hend with
  | barred | rejected => cases ho
  | refused | failed | committed =>
    cases ho
    exact ⟨_, rfl, rfl, rfl⟩

theorem carryOut_unrecorded (hrecord : (h.carryOut store order).record = none) :
    ∃ e, (h.carryOut store order).answer = .error e := by
  cases hanswer : (h.carryOut store order).answer with
  | error e => exact ⟨e, rfl⟩
  | ok outcome =>
    obtain ⟨t, ht, -⟩ := carryOut_answer hanswer
    rw [hrecord] at ht
    cases ht

/-- An order on layers that are applied in the end has the answer, the record and the ledger of the same order on the
ledger itself: every request of every frame has the same reply. -/
theorem carryOut_eq_inPlace (h : Host) (l : Ledger) (order : Order) :
    h.carryOut { ledger := l } order = h.carryOutInPlace { ledger := l } order := by
  rw [carryOut_def, carryOutInPlace, Order.scope_flat]
  cases order.check h.config.limits with
  | error e => rfl
  | ok u =>
    cases hs : order.scope h.config { ledger := l } (Layers.ofLedger l) with
    | error why => rfl
    | ok s =>
      have hworld := outermost_flat (Order.scope_ok hs)
      show finish { ledger := l } (h.outermost order s) order.deployed =
        settleInPlace { ledger := l } (h.outermost order s.flat) order.deployed
      rw [flat_outermost, settleInPlace]
      cases hok : (h.outermost order s).record.success with
      | false =>
        rw [finish_failed hok, if_neg (by rw [FrameOutcome.record_flat, hok]; exact Bool.false_ne_true)]
        rfl
      | true => rw [finish_committed rfl hok hworld, if_pos (by rw [FrameOutcome.record_flat, hok])]

end Host

end ContractHost
