import ContractHost.Proofs.FailedRequests
import ContractHost.Proofs.GasSufficiency
import ContractHost.Proofs.StackConsistency
/-!
# Frames that outrun their meters

Once a frame has been told that it is out of gas, it fails and forfeits its whole limit. This does not depend on what its
program does with the news: it may raise the limit again, go on with requests that succeed, and report success in the end.
The frame keeps the news in mind (`Activation.Metered`), and its writes and those of the frames below it are lost with
it. Its caller goes on as if the frame had never run, but for the gas (`Machine.start_forfeits`).
-/
namespace ContractHost

variable {W : Type}

/-! ## Outrunning a meter -/

/-- Whether a program says at its end that it used more than its limit. -/
def Ending.Overspends (limit : Gas) : Ending Output → Prop
  | .done o => o.status = .outOfGas ∨ limit < o.gasUsed
  | .crash _ => False

instance (limit : Gas) (ending : Ending Output) : Decidable (ending.Overspends limit) := by
  cases ending <;> unfold Ending.Overspends <;> infer_instance

/-- How a program ends that has nothing more to ask. -/
def Program.ending? {α : Type} : Program α → Option (Ending α)
  | .done a => some (.done a)
  | .crash reason => some (.crash reason)
  | .ask _ _ => none

/-- Whether a frame whose program ends has outrun its meter: it was told so at some request, or its program says so. -/
def Activation.Outran (a : Activation W) (ending : Ending Output) : Prop :=
  (∃ x ∈ a.exchanges, x.reply.status = .outOfGas) ∨ ending.Overspends a.gasLimit

instance (a : Activation W) (ending : Ending Output) : Decidable (a.Outran ending) :=
  inferInstanceAs (Decidable (_ ∨ _))

/-! ## The mark of a frame out of gas -/

namespace Frame

theorem exchange_ranOut (f : Frame W) (r : Request) (out : Except HostError Settled × Frame W) :
    (f.exchange r out).2.ranOut =
      (out.2.ranOut || decide ((f.exchange r out).1.reply.status = .outOfGas)) := by
  obtain ⟨(e | v | t), after⟩ := out
  · rfl
  · exact (Bool.or_false _).symm
  · simp only [exchange, Reply.nested]
    split <;> exact (Bool.or_false _).symm

variable [World W] {config : Config} {run : Runner W} {f : Frame W}

theorem Move.ranOut {c : Command} {out : Except HostError Settled × Frame W} (h : f.Move config run c out) :
    out.2.ranOut = f.ranOut := by
  cases h with
  | done v hc hfunds => rfl
  | failed e hc => rfl
  | refused n why hc => exact record_ranOut _ _
  | ran n s hc hs => exact record_ranOut _ _

/-- A frame is marked by a reply that tells it that it is out of gas, and by nothing else. -/
theorem answer_ranOut (config : Config) (run : Runner W) (f : Frame W) (r : Request) :
    (f.answer config run r).2.ranOut =
      (f.ranOut || decide ((f.answer config run r).1.reply.status = .outOfGas)) := by
  cases hcheck : r.check config.limits f.scope.own.contract with
  | error e =>
    rw [answer_fault run hcheck]
    exact exchange_ranOut f r _
  | ok c => rw [answer_checked hcheck, exchange_ranOut, (perform_move config run f c).ranOut]

end Frame

/-! ## Ends of frames -/

namespace Frame

variable {f g : Frame W} {action : Action} {ending : Ending Output}

theorem conclude_gasUsed_of_out (bound : Nat) (hout : f.isOut action.gasLimit ending = true) :
    (f.conclude bound action ending).1.gasUsed = action.gasLimit := by
  simp only [conclude, hout, if_true]

theorem conclude_status_of_out (bound : Nat) (hout : f.isOut action.gasLimit ending = true) :
    (f.conclude bound action ending).1.success = false ∧ (f.conclude bound action ending).2 = .outOfGas := by
  have hfailed : (f.conclude bound action ending).1.success = false := by
    cases hsuccess : (f.conclude bound action ending).1.success with
    | false => rfl
    | true =>
      rw [(conclude_success hsuccess).1] at hout
      cases hout
  have hreport := hfailed
  simp only [conclude, hout, if_true] at hreport ⊢
  rw [hreport]
  exact ⟨rfl, rfl⟩

theorem reported_le_iff (h : f.meter.consumed.toNat ≤ action.gasLimit.toNat) (o : Output) :
    action.gasLimit < f.reported o ↔ action.gasLimit < o.gasUsed := by
  rw [UInt64.lt_iff_toNat_lt, UInt64.lt_iff_toNat_lt, reported, Gas.toNat_greatest]
  split <;> omega

theorem isOut_done (h : f.meter.consumed.toNat ≤ action.gasLimit.toNat) (o : Output) :
    f.isOut action.gasLimit (.done o) = true ↔ f.ranOut = true ∨ (Ending.done o).Overspends action.gasLimit := by
  simp only [isOut, Ending.output, Ending.isCrash, Ending.Overspends, reported_le_iff h, Bool.or_eq_true,
    decide_eq_true_eq, Bool.not_false, Bool.true_and, or_assoc]
  exact (or_congr_left decide_eq_true_iff).trans or_left_comm

theorem isOut_crash (h : f.meter.consumed.toNat ≤ action.gasLimit.toNat) (reason : Option String) :
    f.isOut action.gasLimit (.crash reason) = false ∧
      f.reported ((Ending.crash reason).output action.gasLimit) = action.gasLimit := by
  have hreported : f.reported ((Ending.crash reason).output action.gasLimit) = action.gasLimit :=
    reported_of_account h
  have hstatus : ((Ending.crash reason).output action.gasLimit).status = .hostFault := rfl
  refine ⟨?_, hreported⟩
  simp [isOut, hreported, hstatus, Ending.isCrash]

theorem conclude_crash (bound : Nat) (h : f.meter.consumed.toNat ≤ action.gasLimit.toNat) (reason : Option String) :
    (f.conclude bound action (.crash reason)).1.success = false ∧
      (f.conclude bound action (.crash reason)).1.gasUsed = action.gasLimit := by
  obtain ⟨hout, hreported⟩ := isOut_crash h reason
  constructor
  · cases hsuccess : (f.conclude bound action (.crash reason)).1.success with
    | false => rfl
    | true =>
      have hok := (conclude_success hsuccess).2
      cases hok
  · simp only [conclude, hout, Bool.false_eq_true, if_false]
    exact hreported

/-- Frames with the same mark end with the same status, whatever their meters have consumed within the limit. -/
theorem conclude_alike (bound : Nat) (hf : f.meter.consumed.toNat ≤ action.gasLimit.toNat)
    (hg : g.meter.consumed.toNat ≤ action.gasLimit.toNat) (hran : g.ranOut = f.ranOut) (ending : Ending Output) :
    (g.conclude bound action ending).2 = (f.conclude bound action ending).2 ∧
      (g.conclude bound action ending).1.success = (f.conclude bound action ending).1.success := by
  have hout : g.isOut action.gasLimit ending = f.isOut action.gasLimit ending := by
    cases ending with
    | done o => rw [Bool.eq_iff_iff, isOut_done hg, isOut_done hf, hran]
    | crash reason => rw [(isOut_crash hg reason).1, (isOut_crash hf reason).1]
  simp only [conclude, hout, and_self]

end Frame

/-! ## Frames in the course of their programs -/

namespace Activation

/-- What holds of the gas of a frame in the course of its program: its meter is within its limit, and it is marked if and
only if it was told that it is out of gas. -/
structure Metered (a : Activation W) : Prop where
  cap : a.frame.meter.cap = a.gasLimit
  meter : a.frame.meter.Sound
  marked : a.frame.ranOut = a.exchanges.any fun x => x.reply.status = .outOfGas

variable {a : Activation W} {config : Config}

theorem Metered.consumed (h : a.Metered) (i : Invocation) :
    a.frame.meter.consumed.toNat ≤ (i.action a.amount a.gasLimit).gasLimit.toNat := by
  rw [Invocation.gasLimit_action, ← h.cap]
  exact Nat.le_trans h.meter.consumed h.meter.limit

theorem Metered.goOn (h : a.Metered) {x : Exchange} {g : Frame W} (hmeter : a.frame.meter.Onward g.meter)
    (hmarked : g.ranOut = (a.frame.ranOut || decide (x.reply.status = .outOfGas))) :
    Metered { a with exchanges := a.exchanges ++ [x], frame := g } where
  cap := hmeter.cap.trans h.cap
  meter := hmeter.sound
  marked := by
    rw [hmarked, h.marked, List.any_append]
    simp

theorem Metered.marked_iff (h : a.Metered) :
    a.frame.ranOut = true ↔ ∃ x ∈ a.exchanges, x.reply.status = .outOfGas := by
  rw [h.marked, List.any_eq_true]
  simp

/-- What becomes of a frame that has outrun its meter. -/
structure Forfeits (config : Config) (a : Activation W) (ending : Ending Output) : Prop where
  failed : (a.finish config ending).record.success = false
  gasUsed : (a.finish config ending).record.gasUsed = a.gasLimit
  status : ending.isCrash = false → (a.finish config ending).record.label.status = .outOfGas

theorem Metered.forfeits (h : a.Metered) (config : Config) {ending : Ending Output} (hout : a.Outran ending) :
    a.Forfeits config ending := by
  have hlimit := a.invocation.gasLimit_action a.amount a.gasLimit
  cases ending with
  | done o =>
    have hisOut : a.frame.isOut (a.invocation.action a.amount a.gasLimit).gasLimit (.done o) = true := by
      rw [Frame.isOut_done (h.consumed a.invocation), h.marked_iff, hlimit]
      exact hout
    obtain ⟨hfailed, hstatus⟩ := Frame.conclude_status_of_out config.maxArgsLength.toNat hisOut
    exact ⟨hfailed, (Frame.conclude_gasUsed_of_out _ hisOut).trans hlimit, fun _ => hstatus⟩
  | crash reason =>
    obtain ⟨hfailed, hgas⟩ :=
      Frame.conclude_crash config.maxArgsLength.toNat (h.consumed a.invocation) reason
    exact ⟨hfailed, hgas.trans hlimit, nofun⟩

/-- A caller after a nested frame that has failed: nothing was written, and whatever its own program does next, it ends
with the status that it would have had without the nested frame. -/
structure Unharmed (config : Config) (before after : Activation W) : Prop where
  scope : after.frame.scope = before.frame.scope
  ranOut : after.frame.ranOut = before.frame.ranOut
  status : ∀ ending, (after.finish config ending).record.label.status = (before.finish config ending).record.label.status
  success : ∀ ending, (after.finish config ending).record.success = (before.finish config ending).record.success

def asked (a : Activation W) : Command.Nesting :=
  { target := a.scope.own.contract, invocation := a.invocation, amount := a.amount, gas := a.gasLimit }

end Activation

/-! ## Steps -/

namespace Machine

/-- Callers that can pay for a nested frame with a gas limit: each of them has left what the next frame was granted. -/
def Backed (limit : Gas) : List (Waiting W) → Prop
  | [] => True
  | w :: callers =>
    w.activation.Metered ∧ limit.toNat ≤ w.activation.frame.meter.remaining.toNat ∧
      Backed w.activation.gasLimit callers

/-- A state in which every frame is within its limit and has left what the one below was granted. -/
def Backing : Machine W → Prop
  | .running a _ callers => a.Metered ∧ Backed a.gasLimit callers
  | .ended _ => True

variable [World W] {config : Config}

/-- The exchange about a nested frame with an outcome, and the caller's frame afterwards. -/
def handed (w : Waiting W) (outcome : FrameOutcome W) : Exchange × Frame W :=
  w.activation.frame.exchange w.request ((w.activation.frame.resume outcome).record outcome.record)

/-- A caller that has been handed an outcome. -/
def resumed (w : Waiting W) (outcome : FrameOutcome W) : Activation W :=
  { w.activation with
    exchanges := w.activation.exchanges ++ [(handed w outcome).1]
    frame := (handed w outcome).2 }

theorem ranOut_handed (w : Waiting W) (outcome : FrameOutcome W) :
    (handed w outcome).2.ranOut =
      (w.activation.frame.ranOut || decide ((handed w outcome).1.reply.status = .outOfGas)) := by
  have hrecord : ((w.activation.frame.resume outcome).record outcome.record).2.ranOut = w.activation.frame.ranOut :=
    Frame.record_ranOut _ _
  rw [handed, Frame.exchange_ranOut, hrecord]

theorem metered_resumed {w : Waiting W} (hw : w.activation.Metered) (outcome : FrameOutcome W) :
    (resumed w outcome).Metered := by
  refine hw.goOn ?_ (ranOut_handed w outcome)
  rw [handed, Frame.exchange_meter, Frame.record_meter]
  exact hw.meter.charge outcome.record.gasUsed

/-- A caller that can pay for a frame which has failed is told so, is charged, and goes on unharmed. -/
theorem unharmed_resumed {w : Waiting W} (hw : w.activation.Metered) {outcome : FrameOutcome W} {n : Command.Nesting}
    (hle : outcome.record.gasUsed.toNat ≤ min n.gas.toNat w.activation.frame.meter.remaining.toNat)
    (hfailed : outcome.record.success = false) :
    w.activation.frame.Records (handed w outcome).2 n (handed w outcome).1.reply outcome.record ∧
      (handed w outcome).1.reply.status = .contractError ∧
      Activation.Unharmed config w.activation (resumed w outcome) := by
  let f := w.activation.frame
  obtain ⟨-, hrecords⟩ := Frame.records_of_le (f := f) (g := f.resume outcome) rfl rfl hw.meter hle w.request
  have hstatus : (handed w outcome).1.reply.status = .contractError := by
    have hreply := hrecords.status
    rw [hfailed] at hreply
    exact hreply
  have hscope : (handed w outcome).2.scope = f.scope := by
    rw [handed, Frame.exchange_scope, Frame.record_scope]
    exact Frame.resume_scope_of_failed hfailed
  -- The reply is a failure of another kind, so it does not mark the frame.
  have hran : (handed w outcome).2.ranOut = f.ranOut := by
    rw [ranOut_handed, hstatus]
    exact Bool.or_false _
  have halike := Frame.conclude_alike config.maxArgsLength.toNat (hw.consumed w.activation.invocation)
    ((metered_resumed hw outcome).consumed w.activation.invocation) hran
  exact ⟨hrecords, hstatus, hscope, hran, fun ending => (halike ending).1, fun ending => (halike ending).2⟩

theorem backing_hand (outcome : FrameOutcome W) {limit : Gas} {callers : List (Waiting W)} (h : Backed limit callers) :
    (hand outcome callers).Backing := by
  cases callers with
  | nil => trivial
  | cons w callers => exact ⟨metered_resumed h.1 outcome, h.2.2⟩

theorem backing_enter (vm : Vm) (s : Scope W) (stack : CallStack) (i : Invocation) (amount : Amount) {gas : Gas}
    {callers : List (Waiting W)} (h : Backed gas callers) :
    (enter vm config s stack i amount gas callers).Backing := by
  rw [enter]
  cases stack.enter s.own.contract s.own.caller amount with
  | error e => exact backing_hand _ h
  | ok entered => exact ⟨⟨rfl, Meter.sound_ofLimit gas, rfl⟩, h⟩

/-- Every step keeps the frames within their limits. -/
theorem Backing.step (vm : Vm) {m : Machine W} (h : m.Backing) : (m.step vm config).Backing := by
  match m with
  | .ended outcome => trivial
  | .running a p callers =>
    obtain ⟨ha, hcallers⟩ := h
    match p with
    | .done output => exact backing_hand _ hcallers
    | .crash reason => exact backing_hand _ hcallers
    | .ask r next =>
      rw [Machine.step]
      cases a.frame.entered? config r with
      | none => exact ⟨ha.goOn (Frame.answer_onward config _ ha.meter r) (Frame.answer_ranOut _ _ _ r), hcallers⟩
      | some found =>
        obtain ⟨n, s⟩ := found
        have hgranted : (Gas.least n.gas a.frame.meter.remaining).toNat ≤ a.frame.meter.remaining.toNat := by
          rw [a.frame.toNat_limit n]
          exact Nat.min_le_right _ _
        exact backing_enter vm s a.frame.stack n.invocation n.amount ⟨ha, hgranted, hcallers⟩

theorem Backing.steps (vm : Vm) (config : Config) {m : Machine W} (h : m.Backing) (n : Nat) :
    ((Machine.step vm config)^[n] m).Backing :=
  Function.Iterate.rec Backing h (fun _ hm => hm.step vm) n

theorem step_of_ending {p : Program Output} {ending : Ending Output} (hp : p.ending? = some ending) (vm : Vm)
    (a : Activation W) (callers : List (Waiting W)) :
    step vm config (.running a p callers) = hand (a.finish config ending) callers := by
  cases p with
  | done o =>
    cases hp
    rfl
  | crash reason =>
    cases hp
    rfl
  | ask r next => cases hp

/-! ## Call trees -/

/-- What a state comes to if its frame has outrun its meter and its program ends. The frame forfeits its limit. If it is
the outermost one, the order changes nothing; and a caller that waits for it is unharmed. -/
def Forfeiting (h : Host) (store : Store) (order : Order) : Machine Layers → Prop
  | .ended _ => True
  | .running a p callers => ∀ ending, p.ending? = some ending → a.Outran ending →
    let outcome := a.finish h.config ending
    a.Forfeits h.config ending ∧
      match callers with
      | [] => h.carryOut store order = { answer := .ok (outcome.tell [] none), store, record := some outcome.record }
      | w :: rest =>
        step h.vm h.config (.running a p callers) =
            .running (resumed w outcome) (w.next (handed w outcome).1.reply) rest ∧
          w.activation.frame.Records (handed w outcome).2 a.asked (handed w outcome).1.reply outcome.record ∧
          (handed w outcome).1.reply.status = .contractError ∧
          Activation.Unharmed h.config w.activation (resumed w outcome)

/-- A frame cannot outrun its meter, whatever its program does after it was told, and neither its own writes nor its
caller's status depend on what it did. -/
theorem start_forfeits {h : Host} {store : Store} {order : Order} {s : Scope Layers}
    (hcheck : order.check h.config.limits = .ok ())
    (hs : order.scope h.config store (Layers.ofLedger store.ledger) = .ok s) (n : Nat) :
    ((step h.vm h.config)^[n] (start h order s)).Forfeiting h store order := by
  have hstart : (start h order s).Backing :=
    backing_enter h.vm s h.stack order.invocation order.amount trivial
  have hbacking := hstart.steps h.vm h.config n
  cases hstate : (step h.vm h.config)^[n] (start h order s) with
  | ended outcome => trivial
  | running a p callers =>
    rw [hstate] at hbacking
    obtain ⟨hmetered, hcallers⟩ := hbacking
    intro ending hp hout outcome
    have hforfeits := hmetered.forfeits h.config hout
    refine ⟨hforfeits, ?_⟩
    cases callers with
    | nil =>
      -- The frame is the outermost one, so its outcome is that of the order.
      have hended : Reaches h.vm h.config (start h order s) (.ended outcome) := by
        refine ⟨n + 1, ?_⟩
        rw [Function.iterate_succ_apply', hstate]
        exact step_of_ending hp h.vm a []
      have houtermost : h.outermost order s = outcome := Reaches.ended_inj (start_reaches h order s) hended
      show h.carryOut store order = _
      rw [Host.carryOut_of_scope hcheck hs, houtermost]
      exact Host.finish_failed hforfeits.failed order.deployed
    | cons w rest =>
      obtain ⟨hw, hleft, -⟩ := hcallers
      have hgas : outcome.record.gasUsed.toNat ≤ min a.gasLimit.toNat w.activation.frame.meter.remaining.toNat := by
        rw [hforfeits.gasUsed]
        exact Nat.le_min.mpr ⟨Nat.le_refl _, hleft⟩
      exact ⟨step_of_ending hp h.vm a (w :: rest), unharmed_resumed (n := a.asked) hw hgas hforfeits.failed⟩

end Machine

/-- A host whose programs do not mind their gas. The method `spend` writes without gas, then gives itself its limit,
writes again and reports success; every other method calls it with ten units. -/
def Host.heedless : Host where
  vm.execute _ method _ _ gasLimit :=
    if method = "spend" then
      .ask (.setRemainingGas 0) fun _ => .ask (.setStorage (some [1]) none) fun _ =>
        .ask (.setRemainingGas gasLimit) fun _ => .ask (.setStorage (some [2]) none) fun _ =>
          .done (Output.report 0 .ok [3] "")
    else
      .ask (.call (some Address.zero.bytes) (some (Bytes.ofText "spend")) none none 10 none) fun _ =>
        .done (Output.report 0 .ok [] "")
  vm.deploy _ _ _ _ := .done { gasUsed := 0, status := .ok, record := none }
  config := {}

/-- A ledger with a byte of code at the address zero. -/
def Ledger.byte : Ledger :=
  { accounts := OrderedMap.empty.insert .zero { code := some [1] } }

/-- After five steps of the order to run that byte, the frame of `spend` is to end. -/
def Machine.heedless (s : Scope Layers) : Machine Layers :=
  (step Host.heedless.vm Host.heedless.config)^[5] (start Host.heedless (.execute .atZero) s)

/-- Whether the frame of `spend` has outrun its meter and was told of success since. -/
def Machine.spent : Machine Layers → Bool
  | .running a p [_] =>
    match p.ending? with
    | some ending => decide (a.Outran ending) && a.exchanges.getLast?.any fun x => x.reply.isOk
    | none => false
  | _ => false

/-- The frame of `spend` has outrun its meter though its last write succeeded, and it fails. -/
theorem Machine.heedless_forfeits :
    ∃ s a p w ending, Order.scope {} { ledger := .byte } (Layers.ofLedger .byte) (.execute .atZero) = .ok s ∧
      Machine.heedless s = .running a p [w] ∧ p.ending? = some ending ∧ a.Outran ending ∧
      (a.exchanges.getLast?.any fun x => x.reply.isOk) = true ∧ a.Forfeits {} ending ∧
      Activation.Unharmed {} w.activation (resumed w (a.finish {} ending)) := by
  have hran : (Order.scope {} { ledger := .byte } (Layers.ofLedger .byte) (.execute .atZero)).toOption.any
      (fun s => (Machine.heedless s).spent) = true := by decide +kernel
  cases hs : Order.scope {} { ledger := .byte } (Layers.ofLedger .byte) (.execute .atZero) with
  | error why =>
    rw [hs] at hran
    cases hran
  | ok s =>
    have hforfeits : (Machine.heedless s).Forfeiting Host.heedless { ledger := .byte } (.execute .atZero) :=
      start_forfeits (by decide +kernel) hs 5
    rw [hs] at hran
    have hspent : (Machine.heedless s).spent = true := hran
    unfold spent at hspent
    split at hspent
    next a p w hstate =>
      rw [hstate] at hforfeits
      split at hspent
      next ending hp =>
        obtain ⟨hout, hlast⟩ := Bool.and_eq_true_iff.mp hspent
        obtain ⟨hlost, -, -, -, hunharmed⟩ := hforfeits ending hp (of_decide_eq_true hout)
        exact ⟨s, a, p, w, ending, rfl, hstate, hp, of_decide_eq_true hout, hlast, hlost, hunharmed⟩
      next => cases hspent
    next => cases hspent

end ContractHost
