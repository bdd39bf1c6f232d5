import ContractHost.Proofs.Metering
import ContractHost.Proofs.Refinement
import ContractHost.Proofs.Sums
/-!
# Gas of call trees

A frame uses no more than its gas limit, its nested frames no more than the frame, and each of them is granted no more
than the earlier ones have left. What the program is told that its requests cost is part of what the frame uses. None of
this depends on what the program reports or on the remaining gas that it claims.
-/
namespace ContractHost

namespace CallRecord

def gasLimit (t : CallRecord) : Gas :=
  t.label.result.action.gasLimit

def totalGas (ts : List CallRecord) : Nat :=
  sumOf (fun t => t.gasUsed.toNat) ts

/-- The gas that a program was told its requests have cost. -/
def repliedGas (xs : List Exchange) : Nat :=
  sumOf (fun x => x.reply.gasUsed.toNat) xs

/-- Frames of which each is granted at most what the earlier ones have left of a limit. -/
def Granted (limit : Gas) (ts : List CallRecord) : Prop :=
  ∀ earlier t later, ts = earlier ++ t :: later → totalGas earlier + t.gasLimit.toNat ≤ limit.toNat

/-- What the gas figures of a frame keep to. -/
structure GasSound (t : CallRecord) : Prop where
  used : t.gasUsed.toNat ≤ t.gasLimit.toNat
  nested : totalGas t.children ≤ t.gasUsed.toNat
  granted : Granted t.gasLimit t.children
  replied : ∀ p, t.label.passage = some p → repliedGas p.exchanges ≤ t.gasUsed.toNat

/-- A call tree whose frames are all sound. -/
def AllGasSound (t : CallRecord) : Prop :=
  ∀ u ∈ t.subtrees, GasSound u

theorem totalGas_concat (ts : List CallRecord) (t : CallRecord) :
    totalGas (ts ++ [t]) = totalGas ts + t.gasUsed.toNat :=
  sumOf_concat _ ts t

theorem repliedGas_concat (xs : List Exchange) (x : Exchange) :
    repliedGas (xs ++ [x]) = repliedGas xs + x.reply.gasUsed.toNat :=
  sumOf_concat _ xs x

theorem granted_nil (limit : Gas) : Granted limit [] := by
  intro earlier t later h
  simp at h

theorem Granted.concat {limit : Gas} {ts : List CallRecord} {t : CallRecord} (h : Granted limit ts)
    (ht : totalGas ts + t.gasLimit.toNat ≤ limit.toNat) : Granted limit (ts ++ [t]) := by
  intro earlier u later hsplit
  rcases List.eq_nil_or_concat later with rfl | ⟨later, v, rfl⟩
  · obtain ⟨rfl, hu⟩ := List.append_inj' hsplit rfl
    cases hu
    exact ht
  · have hinit : ts ++ [t] = (earlier ++ u :: later) ++ [v] := by rw [hsplit]; simp
    exact h earlier u later (List.append_inj' hinit rfl).1

theorem AllGasSound.used {t : CallRecord} (h : t.AllGasSound) : t.gasUsed.toNat ≤ t.gasLimit.toNat :=
  (h t t.self_mem_subtrees).used

theorem allGasSound_refused (bound : Nat) (action : Action) (why : Refusal) :
    (refused bound action why).AllGasSound := by
  refine Tree.forall_subtrees_iff.mpr ⟨?_, ?_⟩
  · refine ⟨Nat.le_refl _, Nat.zero_le _, granted_nil _, ?_⟩
    intro p h
    cases h
  · intro c hc
    cases hc

end CallRecord

open CallRecord (totalGas repliedGas Granted AllGasSound)

@[simp] theorem Invocation.gasLimit_action (i : Invocation) (amount : Amount) (gas : Gas) :
    (i.action amount gas).gasLimit = gas := by
  cases i <;> rfl

/-! ## Frames -/

/-- A frame that got a gas limit and keeps to it, together with the frames below. -/
def FrameOutcome.KeepsGas {W : Type} (gas : Gas) (outcome : FrameOutcome W) : Prop :=
  outcome.record.gasLimit = gas ∧ outcome.record.AllGasSound

namespace Frame

variable {W : Type}

/-- What holds of the gas of a frame after any number of exchanges. -/
structure Metered (limit : Gas) (xs : List Exchange) (f : Frame W) : Prop where
  cap : f.meter.cap = limit
  meter : f.meter.Sound
  replied : repliedGas xs ≤ f.meter.consumed.toNat
  nested : totalGas f.children ≤ f.meter.consumed.toNat
  granted : Granted limit f.children
  below : ∀ t ∈ f.children, t.AllGasSound

variable {limit : Gas} {xs : List Exchange} {f g : Frame W}

theorem metered_start (scope : Scope W) (stack : CallStack) (limit : Gas) :
    (start scope stack limit).Metered limit [] where
  cap := rfl
  meter := Meter.sound_ofLimit limit
  replied := Nat.zero_le _
  nested := Nat.zero_le _
  granted := CallRecord.granted_nil limit
  below := by
    intro t h
    cases h

theorem Metered.exchange (h : f.Metered limit xs) (hmeter : f.meter.Onward g.meter)
    (hnested : totalGas g.children ≤ g.meter.consumed.toNat) (hgranted : Granted limit g.children)
    (hbelow : ∀ t ∈ g.children, AllGasSound t) (r : Request) (settled : Except HostError Settled) :
    (f.exchange r (settled, g)).2.Metered limit (xs ++ [(f.exchange r (settled, g)).1]) := by
  have hreply : (f.exchange r (settled, g)).1.reply.gasUsed.toNat = g.meter.consumed.toNat - f.meter.consumed.toNat := by
    rw [exchange_gasUsed]
    exact Gas.toNat_minus _ _
  have hreplied := h.replied
  have hconsumed := hmeter.consumed
  constructor
  · rw [exchange_meter, hmeter.cap, h.cap]
  · rw [exchange_meter]
    exact hmeter.sound
  · rw [exchange_meter, CallRecord.repliedGas_concat, hreply]
    show _ ≤ g.meter.consumed.toNat
    omega
  · rw [exchange_meter, exchange_children]
    exact hnested
  · rw [exchange_children]
    exact hgranted
  · rw [exchange_children]
    exact hbelow

theorem Metered.same (h : f.Metered limit xs) (hmeter : f.meter.Onward g.meter) (hchildren : g.children = f.children)
    (r : Request) (settled : Except HostError Settled) :
    (f.exchange r (settled, g)).2.Metered limit (xs ++ [(f.exchange r (settled, g)).1]) := by
  apply h.exchange hmeter
  · rw [hchildren]
    exact Nat.le_trans h.nested hmeter.consumed
  · rw [hchildren]
    exact h.granted
  · rw [hchildren]
    exact h.below

theorem Metered.nest (h : f.Metered limit xs) {t : CallRecord} (ht : t.AllGasSound)
    (hlimit : t.gasLimit.toNat ≤ f.meter.remaining.toNat) (hmeter : g.meter = (f.meter.charge t.gasUsed).2)
    (hchildren : g.children = f.children ++ [t]) (r : Request) (settled : Except HostError Settled) :
    (f.exchange r (settled, g)).2.Metered limit (xs ++ [(f.exchange r (settled, g)).1]) := by
  have hused := ht.used
  have hconsumed := h.meter.consumed
  have hcap := h.meter.limit
  have hnested := h.nested
  rw [h.cap] at hcap
  rw [Meter.toNat_remaining] at hlimit
  -- What was granted was left on the meter, so charging what was used of it cannot fail.
  have hpaid : f.meter.consumed.toNat + t.gasUsed.toNat ≤ f.meter.limit.toNat := by omega
  apply h.exchange
  · rw [hmeter]
    exact h.meter.charge t.gasUsed
  · rw [hmeter, hchildren, CallRecord.totalGas_concat, Meter.consumed_charge_of_le hpaid]
    omega
  · rw [hchildren]
    apply h.granted.concat
    omega
  · intro u hu
    rw [hchildren, List.mem_append, List.mem_singleton] at hu
    rcases hu with hu | rfl
    · exact h.below u hu
    · exact ht

/-- A frame that has ended has used at most its limit. -/
theorem conclude_gasUsed_le (f : Frame W) (bound : Nat) (action : Action) (ending : Ending Output) :
    (f.conclude bound action ending).1.gasUsed.toNat ≤ action.gasLimit.toNat := by
  simp only [conclude]
  by_cases hout : f.isOut action.gasLimit ending
  · simp only [hout, if_true]
    exact Nat.le_refl _
  · simp only [hout, Bool.false_eq_true, if_false]
    have hle : ¬ action.gasLimit < f.reported (ending.output action.gasLimit) := by
      intro hlt
      exact hout (by simp [isOut, hlt])
    rw [UInt64.lt_iff_toNat_lt] at hle
    exact Nat.le_of_not_lt hle

theorem consumed_le_conclude_gasUsed (f : Frame W) (bound : Nat) (action : Action) (ending : Ending Output)
    (h : f.meter.consumed.toNat ≤ action.gasLimit.toNat) :
    f.meter.consumed.toNat ≤ (f.conclude bound action ending).1.gasUsed.toNat := by
  have hreported : f.meter.consumed.toNat ≤ (f.reported (ending.output action.gasLimit)).toNat := by
    rw [reported, Gas.toNat_greatest]
    split <;> omega
  simp only [conclude]
  by_cases hout : f.isOut action.gasLimit ending
  · simp only [hout, if_true]
    exact h
  · simp only [hout, Bool.false_eq_true, if_false]
    exact hreported

variable [World W] {config : Config} {run : Runner W}

theorem Metered.move (hrun : ∀ s stack i amount gas, (run s stack i amount gas).KeepsGas gas)
    (h : f.Metered limit xs) {r : Request} {c : Command} {out : Except HostError Settled × Frame W}
    (hmove : f.Move config run c out) :
    (f.exchange r out).2.Metered limit (xs ++ [(f.exchange r out).1]) := by
  have hgas : ∀ gas, (Gas.least gas f.meter.remaining).toNat ≤ f.meter.remaining.toNat := by
    intro gas
    rw [Gas.toNat_least]
    split <;> omega
  cases hmove with
  | done v hc hfunds =>
    exact h.same (g := f.written c) (h.meter.meterAfter f.scope c) rfl r (.ok (.value v))
  | failed e hc =>
    exact h.same (g := f.charged c) (h.meter.meterAfter f.scope c) rfl r (.error e)
  | refused n why hc =>
    have hlimit := hgas n.gas
    rw [← Invocation.gasLimit_action n.invocation n.amount (Gas.least n.gas f.meter.remaining)] at hlimit
    exact h.nest (CallRecord.allGasSound_refused _ _ why) hlimit (record_meter _ _) (record_children _ _) r _
  | ran n s hc hs =>
    let outcome := run s f.stack n.invocation n.amount (Gas.least n.gas f.meter.remaining)
    let recorded := (f.resume outcome).record outcome.record
    obtain ⟨hlimit, hsound⟩ := hrun s f.stack n.invocation n.amount (Gas.least n.gas f.meter.remaining)
    have hle := hgas n.gas
    rw [← hlimit] at hle
    exact h.nest (g := recorded.2) hsound hle (record_meter _ _) (record_children _ _) r recorded.1

theorem play_metered (hrun : ∀ s stack i amount gas, (run s stack i amount gas).KeepsGas gas)
    {α : Type} (p : Program α) (h : f.Metered limit []) :
    (play config run p f).2.2.Metered limit (play config run p f).1 := by
  refine play_induct (P := fun xs f => f.Metered limit xs) ?_ ?_ p [] f h
  · intro xs f r e h _
    exact h.same h.meter.onward rfl r _
  · intro xs f r c out h _ hmove
    exact h.move hrun hmove

end Frame

/-! ## Call trees -/

theorem runFrame_keepsGas {W : Type} [World W] (vm : Vm) (config : Config) (room : Nat) (s : Scope W)
    (stack : CallStack) (i : Invocation) (amount : Amount) (gas : Gas) :
    (runFrame vm config room s stack i amount gas).KeepsGas gas := by
  refine runFrame_induct (P := fun _ _ _ _ gas outcome => outcome.KeepsGas gas) ?_ ?_ room s stack i amount gas
  · intro s stack i amount gas e
    exact ⟨i.gasLimit_action amount gas, CallRecord.allGasSound_refused _ _ _⟩
  · intro run hrun s stack i amount gas entered _
    let played := Frame.play config run (vm.program i s.own.code gas) (.start s entered gas)
    have hplay : played.2.2.Metered gas played.1 := Frame.play_metered hrun _ (Frame.metered_start s entered gas)
    have hlimit : (i.action amount gas).gasLimit = gas := i.gasLimit_action amount gas
    have hconsumed : played.2.2.meter.consumed.toNat ≤ (i.action amount gas).gasLimit.toNat := by
      have hmeter := hplay.meter
      rw [hlimit, ← hplay.cap]
      exact Nat.le_trans hmeter.consumed hmeter.limit
    have hleast := played.2.2.consumed_le_conclude_gasUsed config.maxArgsLength.toNat (i.action amount gas) played.2.1
      hconsumed
    have hmost := played.2.2.conclude_gasUsed_le config.maxArgsLength.toNat (i.action amount gas) played.2.1
    refine ⟨hlimit, Tree.forall_subtrees_iff.mpr ⟨?_, hplay.below⟩⟩
    constructor
    · exact hmost
    · exact Nat.le_trans hplay.nested hleast
    · show Granted (i.action amount gas).gasLimit _
      rw [hlimit]
      exact hplay.granted
    · intro p hp
      cases hp
      exact Nat.le_trans hplay.replied hleast

/-- Every frame of the call tree of an order keeps to its gas limit, together with its nested frames and with what its
program was told. -/
theorem Host.carryOut_gasSound (h : Host) (store : Store) (order : Order) :
    match (h.carryOut store order).answer with
    | .error _ => True
    | .ok outcome => ∃ record, (h.carryOut store order).record = some record ∧ outcome.result = record.result ∧
        record.AllGasSound := by
  have hend := h.carryOut_end store order
  generalize h.carryOut store order = c at hend ⊢
  have hsound : ∀ s : Scope Ledger, (h.outermost order s).record.AllGasSound := fun s =>
    (runFrame_keepsGas h.vm h.config _ s h.stack _ _ _).2
  cases hend with
  | barred e hcheck => trivial
  | rejected s reason hcheck hs hok hstore => trivial
  | refused why hcheck hscope => exact ⟨_, rfl, rfl, CallRecord.allGasSound_refused _ _ why⟩
  | failed s hcheck hs hfail => exact ⟨_, rfl, rfl, hsound s⟩
  | committed s hcheck hs hok hstore => exact ⟨_, rfl, rfl, hsound s⟩

end ContractHost
