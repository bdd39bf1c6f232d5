import ContractHost.Proofs.GasBounds
import ContractHost.Proofs.Trees
/-!
# How frames end

A frame that was asked for comes to one of two ends: it is refused, or its program comes to an end, whatever it reports
and even if it breaks off. What holds of frames at both ends holds at every node of the record of an order
(`NodeRule.carryOut`). So every node accounts for its gas to the unit, every failure has a text, and a status tells of
success just if the result does.
-/
namespace ContractHost

/-! ## Texts of failures -/

theorem append_ne_empty {s : String} (h : s ≠ "") (t : String) : s ++ t ≠ "" := by
  intro hempty
  exact h (String.append_eq_empty_iff.mp hempty).1

theorem Status.text_ne_empty {status : Status} (h : status ≠ .ok) : status.text ≠ "" := by
  cases status with
  | ok => exact absurd rfl h
  | contractError | outOfGas | hostFault => decide

theorem HostError.message_ne_empty (e : HostError) : e.message ≠ "" := by
  cases e with
  | badAddress | emptyCode | emptyStack => decide
  | missing | malformed | callDepth | broken | ledger => exact append_ne_empty (by decide) _
  | notText | reentrancy => exact append_ne_empty (append_ne_empty (by decide) _) _
  | outOfGas | insufficientFunds => exact append_ne_empty (append_ne_empty (append_ne_empty (by decide) _) _) _
  | tooLong what length bound =>
    have hwhat : "Invalid input: " ++ what ++ " too long: " ≠ "" := append_ne_empty (append_ne_empty (by decide) _) _
    exact append_ne_empty (append_ne_empty (append_ne_empty hwhat _) _) _

theorem Refusal.message_ne_empty (why : Refusal) : why.message ≠ "" := by
  cases why with
  | noCode | constructorCall | occupied => decide
  | barred cause => exact cause.message_ne_empty

namespace Report

variable {status : Status} {record : Option Bytes}

theorem status_of_success (h : (decode status record).success = true) : status = .ok := by
  rw [decode] at h
  split at h
  · exact of_decide_eq_true h
  · split at h
    · exact of_decide_eq_true (Bool.and_eq_true_iff.mp h).1
    · cases h

theorem ofRecord_error_ne_empty {r : Wire.ResultRecord} (h : (ofRecord status r).success = false) :
    (ofRecord status r).error ≠ "" := by
  have hfailed : (decide (status = .ok) && r.success) = false := h
  simp only [ofRecord, hfailed, Bool.false_eq_true, false_or]
  split
  · assumption
  · split
    · decide
    · exact Status.text_ne_empty ‹_›

theorem error_ne_empty (h : (decode status record).success = false) : (decode status record).error ≠ "" := by
  rw [decode] at h ⊢
  split at h
  · exact Status.text_ne_empty (of_decide_eq_false h)
  · split at h
    · exact ofRecord_error_ne_empty h
    · exact append_ne_empty (by decide) _

end Report

/-! ## Results that add up -/

/-- What is reported about a frame adds up under a price of gas: no more gas is used than there was, what is left is
priced to the unit, and a failure has a text. -/
structure FrameResult.Coherent (price : Amount) (r : FrameResult) : Prop where
  used : r.gasUsed.toNat ≤ r.action.gasLimit.toNat
  remaining : r.remaining = (r.action.gasLimit.toNat - r.gasUsed.toNat) * price
  error : r.success = false → r.error ≠ ""

/-- A frame whose result adds up and whose status agrees with it. -/
structure FrameRecord.Coherent (price : Amount) (r : FrameRecord) : Prop where
  result : r.result.Coherent price
  status : r.status = .ok ↔ r.result.success = true

theorem CallRecord.coherent_refused (price : Amount) (bound : Nat) (action : Action) (why : Refusal) :
    (refused bound action why).label.Coherent price := by
  refine ⟨⟨Nat.le_refl _, ?_, fun _ => why.message_ne_empty⟩, ⟨nofun, nofun⟩⟩
  show 0 = (action.gasLimit.toNat - action.gasLimit.toNat) * price
  rw [Nat.sub_self, Nat.zero_mul]

namespace Frame

variable {W : Type} {f : Frame W} {action : Action} {ending : Ending Output}

theorem conclude_success {bound : Nat} (h : (f.conclude bound action ending).1.success = true) :
    f.isOut action.gasLimit ending = false ∧ (ending.output action.gasLimit).status = .ok := by
  have hstatus := Report.status_of_success h
  cases hout : f.isOut action.gasLimit ending with
  | true =>
    rw [hout] at hstatus
    cases hstatus
  | false =>
    rw [hout] at hstatus
    exact ⟨rfl, hstatus⟩

theorem conclude_status_of_success {bound : Nat} (h : (f.conclude bound action ending).1.success = true) :
    (f.conclude bound action ending).2 = .ok :=
  if_pos h

/-- The status of a failed frame is not success, even if that is what its program reports. -/
theorem conclude_status_of_failure {bound : Nat} (h : (f.conclude bound action ending).1.success = false) :
    (f.conclude bound action ending).2 ≠ .ok := by
  have hfailed : ¬ (f.conclude bound action ending).1.success = true := by
    rw [h]
    exact Bool.false_ne_true
  have hother : ∀ status : Status, (if status = .ok then .contractError else status) ≠ .ok := by
    intro status
    cases status <;> decide
  exact fun hok => hother _ ((if_neg hfailed).symm.trans hok)

/-- What is recorded of a frame itself that has ended. -/
def closing (f : Frame W) (bound : Nat) (action : Action) (ending : Ending Output) (passage : Passage) : FrameRecord :=
  { result := (f.conclude bound action ending).1, status := (f.conclude bound action ending).2, passage := some passage }

/-- A frame that has ended adds up, however its program has ended. -/
theorem closing_coherent (f : Frame W) (bound : Nat) (action : Action) (ending : Ending Output) (passage : Passage) :
    (f.closing bound action ending passage).Coherent f.scope.chain.minFeePerGas := by
  refine ⟨⟨f.conclude_gasUsed_le bound action ending, ?_, Report.error_ne_empty⟩, ?_, conclude_status_of_success⟩
  · show f.scope.chain.minFeePerGas * (Gas.minus action.gasLimit _).toNat = _
    rw [Gas.toNat_minus, Nat.mul_comm]
    rfl
  · intro hok
    cases hsuccess : (f.conclude bound action ending).1.success with
    | true => exact hsuccess
    | false => exact absurd hok (conclude_status_of_failure hsuccess)

end Frame

/-! ## The nodes of a record -/

def CallRecord.AllNodes (P : FrameRecord → Prop) (t : CallRecord) : Prop :=
  ∀ u ∈ t.subtrees, P u.label

/-- A property that the nodes of refused frames have, and those of frames that have ended in a store. -/
structure NodeRule (W : Type) (config : Config) (store : Store) (P : FrameRecord → Prop) : Prop where
  refused : ∀ action why, P (CallRecord.refused config.maxArgsLength.toNat action why).label
  ended : ∀ (f : Frame W) action ending passage, f.scope.store = store →
    P (f.closing config.maxArgsLength.toNat action ending passage)

/-- A frame in a store whose nested frames have a property at every node. -/
structure Frame.Bears {W : Type} (store : Store) (P : FrameRecord → Prop) (f : Frame W) : Prop where
  store : f.scope.store = store
  below : ∀ t ∈ f.children, t.AllNodes P

namespace NodeRule

variable {W : Type} {config : Config} {store : Store} {P : FrameRecord → Prop} (hP : NodeRule W config store P)
include hP

theorem leaf (action : Action) (why : Refusal) : (CallRecord.refused config.maxArgsLength.toNat action why).AllNodes P :=
  Tree.forall_subtrees_iff.mpr ⟨hP.refused action why, nofun⟩

variable [World W]

theorem move {run : Runner W}
    (hrun : ∀ s stack i amount gas, s.store = store → (run s stack i amount gas).record.AllNodes P) {f : Frame W}
    {c : Command} {out : Except HostError Settled × Frame W} (hf : f.Bears store P) (h : f.Move config run c out) :
    out.2.Bears store P := by
  refine ⟨h.kin.store.trans hf.store, ?_⟩
  have hconcat : ∀ t : CallRecord, t.AllNodes P → ∀ u ∈ f.children ++ [t], u.AllNodes P := by
    intro t ht u hu
    rcases List.mem_append.mp hu with hearlier | hlast
    · exact hf.below u hearlier
    · rw [List.mem_singleton.mp hlast]
      exact ht
  cases h with
  | done v hc hfunds => exact hf.below
  | failed e hc => exact hf.below
  | refused n why hc =>
    rw [Frame.record_children]
    exact hconcat _ (hP.leaf _ why)
  | ran n s hc hs =>
    rw [Frame.record_children]
    exact hconcat _ (hrun s f.stack _ _ _ (hs.kin.store.trans hf.store))

theorem play {run : Runner W}
    (hrun : ∀ s stack i amount gas, s.store = store → (run s stack i amount gas).record.AllNodes P) {α : Type}
    (p : Program α) {f : Frame W} (hf : f.Bears store P) : (Frame.play config run p f).2.2.Bears store P := by
  have hexchange : ∀ {g : Frame W} {r : Request} {out : Except HostError Settled × Frame W}, out.2.Bears store P →
      (g.exchange r out).2.Bears store P := by
    rintro g r out ⟨hstore, hbelow⟩
    refine ⟨?_, ?_⟩
    · rw [Frame.exchange_scope]
      exact hstore
    · rw [Frame.exchange_children]
      exact hbelow
  refine Frame.play_induct (P := fun _ g => g.Bears store P) ?_ ?_ p [] f hf
  · exact fun _ g r e hg _ => hexchange hg
  · exact fun _ g r c out hg _ hmove => hexchange (hP.move hrun hg hmove)

theorem runFrame (vm : Vm) (room : Nat) (s : Scope W) (stack : CallStack) (i : Invocation) (amount : Amount) (gas : Gas)
    (hs : s.store = store) : (runFrame vm config room s stack i amount gas).record.AllNodes P := by
  revert hs
  refine runFrame_induct (P := fun s _ _ _ _ outcome => s.store = store → outcome.record.AllNodes P) ?_ ?_
    room s stack i amount gas
  · exact fun s stack i amount gas e _ => hP.leaf (i.action amount gas) (.barred e)
  · intro run hrun s stack i amount gas entered _ hs
    have hend := hP.play hrun (vm.program i s.own.code gas) (f := .start s entered gas) ⟨hs, nofun⟩
    exact Tree.forall_subtrees_iff.mpr ⟨hP.ended _ _ _ _ hend.store, hend.below⟩

end NodeRule

theorem NodeRule.carryOut {h : Host} {store : Store} {P : FrameRecord → Prop} (hP : NodeRule Ledger h.config store P)
    {order : Order} {t : CallRecord} (ht : (h.carryOut store order).record = some t) : t.AllNodes P := by
  obtain ⟨-, ⟨why, rfl⟩ | ⟨s, hs, rfl⟩⟩ := Host.carryOut_record ht
  · exact hP.leaf _ why
  · exact hP.runFrame h.vm _ s h.stack _ _ _ hs.store

/-! ## Orders -/

theorem nodeRule_coherent (config : Config) (store : Store) :
    NodeRule Ledger config store (FrameRecord.Coherent store.ledger.chain.minFeePerGas) where
  refused := CallRecord.coherent_refused _ _
  ended f action ending passage hf := by
    rw [← hf]
    exact f.closing_coherent _ action ending passage

theorem CallRecord.coherent_result {price : Amount} {t : CallRecord} (h : t.AllNodes (FrameRecord.Coherent price)) :
    ∀ u ∈ t.result.subtrees, u.label.Coherent price := by
  intro u hu
  rw [result, Tree.subtrees_map] at hu
  obtain ⟨v, hv, rfl⟩ := List.mem_map.mp hu
  rw [Tree.label_map]
  exact (h v hv).result

/-- In the record of an order every node adds up: the gas that is left is priced exactly at the minimum fee, a failed
frame has a text, and a frame has the status of success just if it has succeeded. This holds whatever the programs report
and however they end. The same holds of the result and the status that the account is told. -/
theorem Host.carryOut_coherent (h : Host) (store : Store) (order : Order) :
    let c := h.carryOut store order
    let price := store.ledger.chain.minFeePerGas
    (match c.record with
      | none => ∃ e, c.answer = .error e
      | some t => ∀ u ∈ t.subtrees, u.label.Coherent price) ∧
    (match c.answer with
      | .error _ => True
      | .ok outcome =>
        (∀ u ∈ outcome.result.subtrees, u.label.Coherent price) ∧ (outcome.status = .ok ↔ outcome.success = true)) := by
  have hrule := nodeRule_coherent h.config store
  constructor
  · cases hrecord : (h.carryOut store order).record with
    | none => exact carryOut_unrecorded hrecord
    | some t => exact hrule.carryOut hrecord
  · cases hanswer : (h.carryOut store order).answer with
    | error e => trivial
    | ok outcome =>
      obtain ⟨t, ht, hresult, hstatus⟩ := carryOut_answer hanswer
      have hnodes := hrule.carryOut ht
      have hroot : t.label.status = .ok ↔ t.label.result.success = true := (hnodes t t.self_mem_subtrees).status
      refine ⟨?_, ?_⟩
      · rw [hresult]
        exact CallRecord.coherent_result hnodes
      · rw [hstatus, hroot, Outcome.success, hresult, CallRecord.result, Tree.label_map]

end ContractHost
