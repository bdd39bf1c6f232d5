import ContractHost.Proofs.CallStacks
import ContractHost.Proofs.GasBounds
/-!
# What comes of asking for a nested frame

A frame that asks for a nested one is always told of a result: the request neither runs out of gas nor faults the host,
whatever happened below. Three things could go wrong after the frame was found admissible, and none of them can happen in
a frame that occurs during an order: the amount can be paid, the stack has room, and the gas used below was left.
-/
namespace ContractHost

variable {W : Type}

/-! ## Replies -/

namespace Frame

/-- What every request for a nested frame comes to, in a frame `f` that is `g` afterwards: the frame is recorded as `t`
and paid for, and the reply tells of it. -/
structure Records (f g : Frame W) (n : Command.Nesting) (reply : Reply) (t : CallRecord) : Prop where
  status : reply.status = if t.success then .ok else .contractError
  value : reply.value = .bytes (some t.result.toBytes)
  gasUsed : reply.gasUsed = t.gasUsed
  children : g.children = f.children ++ [t]
  consumed : g.meter.consumed.toNat = f.meter.consumed.toNat + t.gasUsed.toNat
  bounded : t.gasUsed.toNat ≤ min n.gas.toNat f.meter.remaining.toNat

/-- A frame that was not entered: it has failed at once, it forfeits the gas that it was granted, and nothing else has
changed. -/
structure Refuses (f g : Frame W) (n : Command.Nesting) (t : CallRecord) : Prop where
  passage : t.label.passage = none
  failed : t.success = false
  children : t.children = []
  forfeit : t.gasUsed.toNat = min n.gas.toNat f.meter.remaining.toNat
  scope : g.scope = f.scope
  stack : g.stack = f.stack

/-- A frame that was entered as it was asked for: it was run in the scope `s`, which the command allows, with the gas that
it was granted, and its program was played. Only if it succeeded is what it wrote taken over. -/
structure Enters [World W] (run : Runner W) (f g : Frame W) (c : Command) (n : Command.Nesting) (s : Scope W)
    (outcome : FrameOutcome W) : Prop where
  entry : f.Entry c s
  ran : outcome = run s f.stack n.invocation n.amount (Gas.least n.gas f.meter.remaining)
  passage : ∃ p, outcome.record.label.passage = some p ∧ p.contract = n.target ∧ p.caller = f.scope.own.contract ∧
    p.invocation = n.invocation ∧ p.code = s.own.code
  scope : g.scope = if outcome.record.success then f.scope.join outcome.world else f.scope
  stack : g.stack = f.stack

variable {f g : Frame W} {n : Command.Nesting} {t : CallRecord}

theorem toNat_limit (f : Frame W) (n : Command.Nesting) :
    (Gas.least n.gas f.meter.remaining).toNat = min n.gas.toNat f.meter.remaining.toNat := by
  rw [Gas.toNat_least]
  split <;> omega

theorem used_le_limit (f : Frame W) (n : Command.Nesting) (hlimit : t.gasLimit = Gas.least n.gas f.meter.remaining)
    (ht : t.AllGasSound) : t.gasUsed.toNat ≤ min n.gas.toNat f.meter.remaining.toNat := by
  have hused := ht.used
  rw [hlimit, f.toNat_limit n] at hused
  exact hused

theorem records_of_le (hmeter : g.meter = f.meter) (hchildren : g.children = f.children) (hsound : f.meter.Sound)
    (hle : t.gasUsed.toNat ≤ min n.gas.toNat f.meter.remaining.toNat) (r : Request) :
    (g.record t).1 = .ok (.nested t) ∧
      f.Records (f.exchange r (g.record t)).2 n (f.exchange r (g.record t)).1.reply t := by
  have hleft := f.meter.toNat_remaining
  have hconsumed := hsound.consumed
  -- What was used was left, so it can be paid for.
  have hfits : f.meter.consumed.toNat + t.gasUsed.toNat ≤ f.meter.limit.toNat := by omega
  have hcharged : (g.record t).2.meter.consumed.toNat = f.meter.consumed.toNat + t.gasUsed.toNat := by
    rw [record_meter, hmeter]
    exact Meter.consumed_charge_of_le hfits
  have hpaid : (g.record t).1 = .ok (.nested t) := by
    simp only [record, hmeter, Meter.charge_of_le hfits]
  have hsuccess : t.result.label.success = t.success := by
    obtain ⟨a, below⟩ := t
    rfl
  have hreply : (f.exchange r (g.record t)).1.reply =
      .nested t.result (Gas.minus (g.record t).2.meter.consumed f.meter.consumed) := by
    generalize g.record t = out at hpaid
    obtain ⟨settled, after⟩ := out
    cases hpaid
    rfl
  have hgas : Gas.minus (g.record t).2.meter.consumed f.meter.consumed = t.gasUsed := by
    apply UInt64.toNat_inj.mp
    rw [Gas.toNat_minus, hcharged]
    omega
  refine ⟨hpaid, ?_, ?_, ?_, ?_, ?_, hle⟩
  · rw [hreply, Reply.nested, hsuccess]
    split <;> rfl
  · rw [hreply, Reply.nested]
    split <;> rfl
  · rw [exchange_gasUsed]
    exact hgas
  · rw [exchange_children, record_children, hchildren]
  · rw [exchange_meter]
    exact hcharged

end Frame

/-! ## Frames in order -/

/-- A stack with room for some more frames. -/
structure CallStack.InOrder (config : Config) (room : Nat) (s : CallStack) : Prop where
  counted : s.Counted
  maxDepth : s.maxDepth = config.maxCallDepth.toNat
  allowReentrancy : s.allowReentrancy = config.allowReentrancy
  room : s.depth + room = config.maxCallDepth.toNat

theorem Host.stack_inOrder (h : Host) : h.stack.InOrder h.config h.config.maxCallDepth.toNat :=
  ⟨fun _ => rfl, rfl, rfl, Nat.zero_add _⟩

namespace Frame

/-- What holds of the meter and of the stack of a frame that occurs. -/
structure InOrder (config : Config) (room : Nat) (f : Frame W) : Prop where
  meter : f.meter.Sound
  counted : f.stack.Counted
  maxDepth : f.stack.maxDepth = config.maxCallDepth.toNat
  allowReentrancy : f.stack.allowReentrancy = config.allowReentrancy
  room : f.stack.depth + room = config.maxCallDepth.toNat

variable {config : Config} {room : Nat} {f g : Frame W}

theorem InOrder.same (h : f.InOrder config room) (hmeter : g.meter.Sound) (hstack : g.stack = f.stack) :
    g.InOrder config room where
  meter := hmeter
  counted := by
    rw [hstack]
    exact h.counted
  maxDepth := by
    rw [hstack]
    exact h.maxDepth
  allowReentrancy := by
    rw [hstack]
    exact h.allowReentrancy
  room := by
    rw [hstack]
    exact h.room

theorem InOrder.onStack (h : f.InOrder config room) : f.stack.InOrder config room :=
  ⟨h.counted, h.maxDepth, h.allowReentrancy, h.room⟩

theorem inOrder_start {s : Scope W} {amount : Nat} {before entered : CallStack} (h : before.InOrder config (room + 1))
    (henter : before.enter s.own.contract s.own.caller amount = .ok entered) (gas : Gas) :
    (start s entered gas).InOrder config room := by
  obtain ⟨-, rfl⟩ := CallStack.enter_ok henter
  have hroom := h.room
  refine ⟨Meter.sound_ofLimit gas, h.counted.push _ _ _, h.maxDepth, h.allowReentrancy, ?_⟩
  show CallStack.depth (before.push s.own.contract s.own.caller amount) + room = _
  rw [CallStack.depth_push]
  omega

/-- Whether there is room for one more frame of a contract. -/
def HasRoom (config : Config) (f : Frame W) (target : Address) : Prop :=
  f.stack.frames.length < config.maxCallDepth.toNat ∧
    (config.allowReentrancy = false → ∀ frame ∈ f.stack.frames, frame.contract ≠ target)

theorem InOrder.checkEnter_iff (h : f.InOrder config room) (target : Address) :
    f.stack.checkEnter target = .ok () ↔ f.HasRoom config target := by
  have hcontains : f.stack.contains target = false ↔ ∀ frame ∈ f.stack.frames, frame.contract ≠ target := by
    rw [← Bool.not_eq_true, h.counted.contains_iff]
    simp
  rw [CallStack.checkEnter_ok_iff, HasRoom, h.maxDepth, h.allowReentrancy, hcontains]
  rfl

variable [World W] {vm : Vm}

theorem Move.meter {run : Runner W} (hf : f.meter.Sound) {c : Command} {out : Except HostError Settled × Frame W}
    (h : f.Move config run c out) : f.meter.Onward out.2.meter := by
  cases h with
  | done v hc hfunds => exact hf.meterAfter f.scope c
  | failed e hc => exact hf.meterAfter f.scope c
  | refused n why hc =>
    rw [record_meter]
    exact hf.charge _
  | ran n s hc hs =>
    rw [record_meter]
    exact hf.charge _

theorem answer_onward (config : Config) (run : Runner W) (hf : f.meter.Sound) (r : Request) :
    f.meter.Onward (f.answer config run r).2.meter := by
  rw [answer, exchange_meter]
  cases r.check config.limits f.scope.own.contract with
  | error e => exact hf.onward
  | ok c => exact (perform_move config run f c).meter hf

theorem answer_stack (vm : Vm) (room : Nat) (hf : f.stack.Counted) (r : Request) :
    (f.answer config (runFrame vm config room) r).2.stack = f.stack := by
  have hrun : ∀ (s : Scope W) stack i amount gas, stack.Counted →
      (runFrame vm config room s stack i amount gas).stack = stack :=
    fun s stack i amount gas hstack => runFrame_stack vm config room s hstack i amount gas
  rw [answer, exchange_stack]
  cases r.check config.limits f.scope.own.contract with
  | error e => rfl
  | ok c => exact (perform_move config _ f c).stack hrun hf

theorem InOrder.answer (h : f.InOrder config room) (r : Request) :
    (f.answer config (runFrame vm config room) r).2.InOrder config room :=
  h.same (answer_onward config _ h.meter r).sound (answer_stack vm room h.counted r)

end Frame

variable [World W]

/-! ## The frames that occur -/

/-- The frames that occur while a host carries out orders in a world, whatever their programs ask for. Below a frame
there is room for some more. -/
inductive Host.Reachable (h : Host) (store : Store) (world : W) : Nat → Frame W → Prop
  | outermost (order : Order) (s : Scope W) (stack : CallStack) (room : Nat)
      (hcheck : order.check h.config.limits = .ok ()) (hscope : order.scope h.config store world = .ok s)
      (henter : h.stack.enter s.own.contract s.own.caller order.amount = .ok stack)
      (hroom : h.config.maxCallDepth.toNat = room + 1) :
      Reachable h store world room (.start s stack order.gasLimit)
  | answer (room : Nat) (f : Frame W) (r : Request) (hf : Reachable h store world room f) :
      Reachable h store world room (f.answer h.config (runFrame h.vm h.config room) r).2
  | nested (room : Nat) (f : Frame W) (r : Request) (c : Command) (n : Command.Nesting) (s : Scope W)
      (stack : CallStack) (hf : Reachable h store world (room + 1) f)
      (hcheck : r.check h.config.limits f.scope.own.contract = .ok c) (hc : c.nesting = some n) (hs : f.Entry c s)
      (henter : f.stack.enter s.own.contract s.own.caller n.amount = .ok stack) :
      Reachable h store world room (.start s stack (Gas.least n.gas f.meter.remaining))

namespace Host

variable {h : Host} {store : Store} {world : W} {room : Nat} {f : Frame W}

theorem Reachable.inOrder (hf : h.Reachable store world room f) : f.InOrder h.config room := by
  induction hf with
  | outermost order s stack room hcheck hscope henter hroom =>
    have hstack := h.stack_inOrder
    rw [hroom] at hstack
    exact Frame.inOrder_start hstack henter order.gasLimit
  | answer room f r hf ih => exact ih.answer r
  | nested room f r c n s stack hf hcheck hc hs henter ih => exact Frame.inOrder_start ih.onStack henter _

/-- The frames that a program goes through occur if the one does that it starts in. -/
theorem Reachable.play (hf : h.Reachable store world room f) {α : Type} (p : Program α) :
    h.Reachable store world room (Frame.play h.config (runFrame h.vm h.config room) p f).2.2 := by
  induction p generalizing f with
  | done a => exact hf
  | crash reason => exact hf
  | ask r next ih => exact ih _ (.answer room f r hf)

end Host

/-! ## Admission -/

namespace Frame

variable {config : Config} {f : Frame W}

/-- What has to hold for the frame of a command to be entered. -/
def Admits (config : Config) (f : Frame W) : Command → Prop
  | .call c => (∃ b code, f.scope.code c.target = some (b :: code)) ∧ c.method ≠ constructorName ∧
      f.HasRoom config c.target ∧ c.amount ≤ f.scope.ownBalance
  | .deploy d => f.scope.code d.address = none ∧ f.HasRoom config d.address ∧ d.amount ≤ f.scope.ownBalance
  | _ => False

theorem precheck_of_le {target : Address} {amount : Nat} (hstack : f.stack.checkEnter target = .ok ())
    (hfunds : amount ≤ f.scope.ownBalance) : f.precheck target amount = .ok () := by
  rw [precheck, hstack]
  exact Scope.checkFunds_of_le hfunds

theorem callScope_of_admits {room : Nat} (h : f.InOrder config room) {call : Call}
    (ha : f.Admits config (.call call)) : ∃ s, f.callScope call = .ok (.ok s) := by
  obtain ⟨⟨b, code, hcode⟩, hmethod, hroom, hfunds⟩ := ha
  have hcheck := precheck_of_le ((h.checkEnter_iff _).mpr hroom) hfunds
  obtain ⟨s, hs⟩ := Scope.forCall_of_le call.target (b :: code) hfunds
  refine ⟨s, ?_⟩
  simp only [callScope, hcode, if_neg hmethod, hcheck, hs]
  rfl

theorem deploymentScope_of_admits {room : Nat} (h : f.InOrder config room) {d : Deployment}
    (ha : f.Admits config (.deploy d)) : ∃ s, f.deploymentScope d = .ok (.ok s) := by
  obtain ⟨hcode, hroom, hfunds⟩ := ha
  have hcheck := precheck_of_le ((h.checkEnter_iff _).mpr hroom) hfunds
  obtain ⟨s, hs⟩ := Scope.forDeploy_of_le d.address d.code hfunds
  refine ⟨s, ?_⟩
  simp only [deploymentScope, hcode, hcheck, hs]
  rfl

theorem opening_of_admits {room : Nat} (h : f.InOrder config room) {c : Command} (ha : f.Admits config c) :
    ∃ s, f.opening c = .ok (.ok s) := by
  cases c with
  | call call => exact callScope_of_admits h ha
  | deploy d => exact deploymentScope_of_admits h ha
  | _ => cases ha

theorem Entry.admits {room : Nat} (h : f.InOrder config room) {c : Command} {s : Scope W} (hs : f.Entry c s) :
    f.Admits config c := by
  cases hs with
  | call call b code s hcode hmethod hstack hs =>
    exact ⟨⟨b, code, hcode⟩, hmethod, (h.checkEnter_iff _).mp hstack, Scope.forCall_funds hs⟩
  | deploy d s hcode hstack hs =>
    obtain ⟨t, ht, -⟩ := Scope.forDeploy_ok hs
    exact ⟨hcode, (h.checkEnter_iff _).mp hstack, Scope.forCall_funds ht⟩

/-- The frame of a command is run if the frame admits it, and else refused. -/
theorem InOrder.perform_nesting {room : Nat} (h : f.InOrder config room) (run : Runner W) {c : Command}
    {n : Command.Nesting} (hn : c.nesting = some n) :
    let limit := Gas.least n.gas f.meter.remaining
    (f.Admits config c ∧ ∃ s, f.Entry c s ∧ f.perform config run c =
        let outcome := run s f.stack n.invocation n.amount limit
        (f.resume outcome).record outcome.record) ∨
      (¬ f.Admits config c ∧ ∃ why, f.perform config run c =
        f.record (CallRecord.refused config.maxArgsLength.toNat (n.invocation.action n.amount limit) why)) := by
  rcases f.opening_cases c with ⟨why, hwhy⟩ | ⟨s, hs⟩
  · refine .inr ⟨?_, why, perform_refused config run hn hwhy⟩
    intro ha
    obtain ⟨s, hs⟩ := opening_of_admits h ha
    rw [hwhy] at hs
    cases hs
  · have hentry := opening_entry hs
    exact .inl ⟨hentry.admits h, s, hentry, perform_ran config run hn hs⟩

theorem Entry.own {c : Command} {n : Command.Nesting} (hn : c.nesting = some n) {s : Scope W} (hs : f.Entry c s) :
    s.own.contract = n.target ∧ s.own.caller = f.scope.own.contract := by
  cases hs with
  | call call b code s hcode hmethod hstack hs =>
    cases hn
    exact ⟨Scope.receive_contract hs, Scope.receive_caller hs⟩
  | deploy d s hcode hstack hs =>
    cases hn
    obtain ⟨t, ht, rfl⟩ := Scope.forDeploy_ok hs
    exact ⟨Scope.receive_contract ht, Scope.receive_caller ht⟩

theorem Entry.checkEnter {c : Command} {s : Scope W} (hs : f.Entry c s) :
    f.stack.checkEnter s.own.contract = .ok () := by
  cases hs with
  | call call b code s hcode hmethod hstack hs =>
    have hcontract : s.own.contract = call.target := Scope.receive_contract hs
    rw [hcontract]
    exact hstack
  | deploy d s hcode hstack hs =>
    obtain ⟨t, ht, rfl⟩ := Scope.forDeploy_ok hs
    have hcontract : t.own.contract = d.address := Scope.receive_contract ht
    show f.stack.checkEnter t.own.contract = .ok ()
    rw [hcontract]
    exact hstack

/-- A frame that the stack has room for is not refused by the stack a second time. -/
theorem InOrder.runFrame_entered {room : Nat} (h : f.InOrder config room) {c : Command} {s : Scope W}
    (hs : f.Entry c s) (vm : Vm) (i : Invocation) (amount : Nat) (gas : Gas) :
    ∃ p, (runFrame vm config room s f.stack i amount gas).record.label.passage = some p ∧
      p.contract = s.own.contract ∧ p.caller = s.own.caller ∧ p.invocation = i ∧ p.code = s.own.code := by
  obtain ⟨hlt, -⟩ := CallStack.checkEnter_ok_iff.mp hs.checkEnter
  have hroom := h.room
  rw [h.maxDepth] at hlt
  obtain ⟨room, rfl⟩ : ∃ r, room = r + 1 := ⟨room - 1, by omega⟩
  have henter := CallStack.enter_of_check hs.checkEnter s.own.caller amount
  simp only [runFrame, henter]
  exact ⟨_, rfl, rfl, rfl, rfl, rfl⟩

theorem InOrder.enters {room : Nat} (h : f.InOrder config room) (vm : Vm) (r : Request) {c : Command}
    {n : Command.Nesting} (hn : c.nesting = some n) {s : Scope W} (hs : f.Entry c s) :
    let outcome := runFrame vm config room s f.stack n.invocation n.amount (Gas.least n.gas f.meter.remaining)
    f.Enters (runFrame vm config room) (f.exchange r ((f.resume outcome).record outcome.record)).2 c n s outcome := by
  intro outcome
  obtain ⟨p, hp, hcontract, hcaller, hinvocation, hcode⟩ :=
    h.runFrame_entered hs vm n.invocation n.amount (Gas.least n.gas f.meter.remaining)
  obtain ⟨htarget, hself⟩ := hs.own hn
  refine ⟨hs, rfl, ⟨p, hp, hcontract.trans htarget, hcaller.trans hself, hinvocation, hcode⟩, ?_, ?_⟩
  · rw [exchange_scope, record_scope]
    rfl
  · rw [exchange_stack, record_stack]
    exact runFrame_stack vm config room s h.counted n.invocation n.amount _

end Frame

/-- A frame that occurs during orders is always told of the nested frame that it asks for, which is entered if and only if
it is admitted. -/
theorem Host.Reachable.answers_nesting {h : Host} {store : Store} {world : W} {room : Nat} {f : Frame W}
    (hf : h.Reachable store world room f) {r : Request} {c : Command}
    (hcheck : r.check h.config.limits f.scope.own.contract = .ok c) {n : Command.Nesting} (hn : c.nesting = some n) :
    let run := runFrame h.vm h.config room
    let (x, g) := f.answer h.config run r
    ∃ t, (f.perform h.config run c).1 = .ok (.nested t) ∧ f.Records g n x.reply t ∧
      (f.Admits h.config c → ∃ s outcome, f.Enters run g c n s outcome ∧ t = outcome.record) ∧
      (¬ f.Admits h.config c → f.Refuses g n t) := by
  intro run
  have hord := hf.inOrder
  let limit := Gas.least n.gas f.meter.remaining
  have hlimit : limit.toNat = min n.gas.toNat f.meter.remaining.toNat := f.toNat_limit n
  have hanswer : f.answer h.config run r = f.exchange r (f.perform h.config run c) := by rw [Frame.answer, hcheck]
  simp only [hanswer]
  rcases hord.perform_nesting run hn with ⟨hadmits, s, hs, hperform⟩ | ⟨hnot, why, hperform⟩
  · let outcome := run s f.stack n.invocation n.amount limit
    obtain ⟨hgas, hsound⟩ := runFrame_keepsGas h.vm h.config room s f.stack n.invocation n.amount limit
    have hle : outcome.record.gasUsed.toNat ≤ min n.gas.toNat f.meter.remaining.toNat := by
      have hused := hsound.used
      rw [hgas, hlimit] at hused
      exact hused
    obtain ⟨hpaid, hrecords⟩ := Frame.records_of_le (f := f) (g := f.resume outcome) rfl rfl hord.meter hle r
    rw [hperform]
    refine ⟨outcome.record, hpaid, hrecords, fun _ => ?_, fun hnot => absurd hadmits hnot⟩
    exact ⟨s, outcome, hord.enters h.vm r hn hs, rfl⟩
  · let t := CallRecord.refused h.config.maxArgsLength.toNat (n.invocation.action n.amount limit) why
    have hforfeit : t.gasUsed.toNat = min n.gas.toNat f.meter.remaining.toNat := by
      show (n.invocation.action n.amount limit).gasLimit.toNat = _
      rw [Invocation.gasLimit_action, hlimit]
    obtain ⟨hpaid, hrecords⟩ := Frame.records_of_le rfl rfl hord.meter (Nat.le_of_eq hforfeit) r
    rw [hperform]
    refine ⟨t, hpaid, hrecords, fun hadmits => absurd hadmits hnot, fun _ => ?_⟩
    refine ⟨rfl, rfl, rfl, hforfeit, ?_, ?_⟩
    · rw [Frame.exchange_scope, Frame.record_scope]
    · rw [Frame.exchange_stack, Frame.record_stack]

/-- A host whose programs end at once. -/
def Host.idle : Host where
  vm.execute _ _ _ _ _ := .done { gasUsed := 0, status := .ok, record := none }
  vm.deploy _ _ _ _ := .done { gasUsed := 0, status := .ok, record := none }
  config := {}

/-- The order to run a byte of code at the address zero. -/
def ExecuteOrder.byte : ExecuteOrder :=
  { contract := .zero, caller := .zero, method := "", gasLimit := 1000, code := some [1] }

def Frame.byte (l : Ledger) : Frame Layers :=
  .start (.root { ledger := l } {} .zero .zero [1]) (Host.idle.stack.push .zero .zero 0) 1000

theorem Host.idle_reachable (l : Ledger) :
    Host.idle.Reachable { ledger := l } (Layers.ofLedger l) 63 (Frame.byte l) := by
  have hamount : Amount.toBytes ExecuteOrder.byte.amount = [] := Bytes.ofNat_zero
  refine .outermost (.execute ExecuteOrder.byte) _ _ 63 ?_ rfl rfl rfl
  simp only [Order.check, ExecuteOrder.check, hamount]
  rfl

theorem Frame.byte_admits : (Frame.byte {}).Admits {} (.deploy ⟨[1], [], [], 0, 500⟩) :=
  ⟨rfl, ⟨by decide, nofun⟩, Nat.zero_le _⟩

/-- The frame asks for the deployment of a byte of code and offers 500 gas for it. The new contract is entered, and its
constructor succeeds. -/
theorem Host.idle_answers_nesting :
    let f := Frame.byte {}
    let run := runFrame Host.idle.vm {} 63
    let c := Command.deploy ⟨[1], [], [], 0, 500⟩
    let n : Command.Nesting := ⟨Address.ofContract [1] [] [], .deploy [] [], 0, 500⟩
    f.Admits {} c ∧
      ∃ s outcome, (f.perform {} run c).1 = .ok (.nested outcome.record) ∧
        f.Enters run (f.answer {} run (.deploy (some [1]) none none none 500)).2 c n s outcome ∧
        outcome.record.success = true ∧ outcome.record.gasUsed.toNat ≤ 500 := by
  intro f run c n
  have hcheck : (Request.deploy (some [1]) none none none 500).check {} .zero = .ok c := rfl
  have hn : c.nesting = some n := rfl
  obtain ⟨t, hpaid, hrecords, henters, -⟩ := (Host.idle_reachable {}).answers_nesting hcheck hn
  obtain ⟨s, outcome, hentered, rfl⟩ := henters Frame.byte_admits
  have hok : (f.answer {} run (.deploy (some [1]) none none none 500)).1.reply.status = .ok := rfl
  have hstatus := hrecords.status.symm.trans hok
  have hsuccess : outcome.record.success = true := by
    cases hfailed : outcome.record.success with
    | true => rfl
    | false =>
      rw [hfailed] at hstatus
      cases hstatus
  exact ⟨Frame.byte_admits, s, outcome, hpaid, hentered, hsuccess,
    Nat.le_trans hrecords.bounded (Nat.min_le_left _ _)⟩

end ContractHost
