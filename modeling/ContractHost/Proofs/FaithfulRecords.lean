import Mathlib.Data.List.Forall2
import ContractHost.Proofs.Nesting
import ContractHost.Proofs.Trees
/-!
# What call records tell

The record of a call tree has a node for every nested frame that a program has asked for with readable inputs, in the
order in which it has asked, and each node tells what was asked for and how much gas was granted. All of it follows from
what the programs have asked and were told. The result that is reported is this with the arguments cut to a length.
-/
namespace ContractHost

/-! ## What a program asks for -/

/-- What a program may ask and be told until it ends. -/
inductive Program.Course {α : Type} : Program α → List Exchange → Ending α → Prop
  | done (a : α) : Course (.done a) [] (.done a)
  | crash (reason : Option String) : Course (.crash reason) [] (.crash reason)
  | ask (x : Exchange) (next : Reply → Program α) {xs : List Exchange} {ending : Ending α}
      (h : Course (next x.reply) xs ending) : Course (.ask x.request next) (x :: xs) ending

/-- A frame that was asked for, and the gas that it was granted. -/
structure Grant where
  nesting : Command.Nesting
  gas : Gas

/-- What the frame is to do, with all of its arguments. -/
def Grant.action (g : Grant) : Action :=
  g.nesting.invocation.action g.nesting.amount g.gas

def Meter.after (m : Meter) (x : Exchange) : Meter :=
  match x.request with
  | .setRemainingGas remaining => m.setRemaining remaining
  | _ => { m with consumed := Gas.plus m.consumed x.reply.gasUsed }

/-- The nested frame that a contract asks for in an exchange, if it does and the inputs can be read and keep to the
limits. It is granted what the contract offers, but no more than is left. -/
def Exchange.grant (limits : InputLimits) (self : Address) (m : Meter) (x : Exchange) : Option Grant :=
  match x.request.check limits self with
  | .ok c => c.nesting.map fun n => { nesting := n, gas := Gas.least n.gas m.remaining }
  | .error _ => none

def grants (limits : InputLimits) (self : Address) : Meter → List Exchange → List Grant
  | _, [] => []
  | m, x :: xs => (x.grant limits self m).toList ++ grants limits self (m.after x) xs

theorem grants_concat (limits : InputLimits) (self : Address) (m : Meter) (xs : List Exchange) (x : Exchange) :
    grants limits self m (xs ++ [x]) =
      grants limits self m xs ++ (x.grant limits self (xs.foldl Meter.after m)).toList := by
  induction xs generalizing m with
  | nil => exact List.append_nil _
  | cons y ys ih => simp only [List.cons_append, grants, ih, List.foldl_cons, List.append_assoc]

namespace Meter

variable {m m' : Meter}

theorem after_of_ne {x : Exchange} (hx : ∀ remaining, x.request ≠ .setRemainingGas remaining) :
    m.after x = { m with consumed := Gas.plus m.consumed x.reply.gasUsed } := by
  unfold after
  split
  · exact absurd ‹_› (hx _)
  · rfl

theorem eq_plus (hcap : m'.cap = m.cap) (hlimit : m'.limit = m.limit) (hle : m.consumed.toNat ≤ m'.consumed.toNat) :
    m' = { m with consumed := Gas.plus m.consumed (Gas.minus m'.consumed m.consumed) } := by
  -- The sum is the later consumption, which is a word, so it does not saturate.
  have hmost := Gas.toNat_le_most m'.consumed
  have hconsumed : Gas.plus m.consumed (Gas.minus m'.consumed m.consumed) = m'.consumed := by
    apply UInt64.toNat_inj.mp
    rw [Gas.toNat_plus, Gas.toNat_minus, if_pos (by omega)]
    omega
  obtain ⟨limit, cap, consumed⟩ := m'
  rw [hconsumed]
  cases hcap
  cases hlimit
  rfl

theorem limit_meterAfter {W : Type} [World W] {c : Command} (hc : ∀ remaining, c ≠ .setRemainingGas remaining)
    (s : Scope W) : (c.meterAfter s m).limit = m.limit := by
  cases c with
  | setRemainingGas remaining => exact absurd rfl (hc remaining)
  | setStorage | removeStorage | readStorage | send | event => exact limit_charge _
  | _ => rfl

end Meter

namespace Frame

variable {W : Type} [World W] {config : Config} {run : Runner W} {f : Frame W}

theorem play_course {α : Type} (config : Config) (run : Runner W) (p : Program α) (f : Frame W) :
    p.Course (play config run p f).1 (play config run p f).2.1 := by
  induction p generalizing f with
  | done a => exact .done a
  | crash reason => exact .crash reason
  | ask r next ih =>
    have hrequest : (f.answer config run r).1.request = r := exchange_request f r _
    have hcourse := Program.Course.ask (f.answer config run r).1 next (ih _ (f.answer config run r).2)
    rw [hrequest] at hcourse
    exact hcourse

theorem Move.meter_after (hmeter : f.meter.Sound) {r : Request} {c : Command}
    {out : Except HostError Settled × Frame W} (hcheck : r.check config.limits f.scope.own.contract = .ok c)
    (h : f.Move config run c out) : out.2.meter = f.meter.after (f.exchange r out).1 := by
  -- Only this request moves the limit; all others are charged, and the reply says how much.
  by_cases hset : ∃ remaining, r = .setRemainingGas remaining
  · obtain ⟨remaining, rfl⟩ := hset
    cases hcheck
    simp only [Meter.after, exchange_request]
    cases h with
    | done v hc hfunds => rfl
    | failed e hc => rfl
    | refused n why hc => cases hc
    | ran n s hc hs => cases hc
  · have hr : ∀ remaining, (f.exchange r out).1.request ≠ .setRemainingGas remaining := by
      intro remaining heq
      rw [exchange_request] at heq
      exact hset ⟨remaining, heq⟩
    have hc : ∀ remaining, c ≠ .setRemainingGas remaining := by
      rintro remaining rfl
      cases Request.check_reads hcheck
      exact hset ⟨remaining, rfl⟩
    have hlimit : out.2.meter.limit = f.meter.limit := by
      cases h with
      | done v _ hfunds => exact Meter.limit_meterAfter hc f.scope
      | failed e _ => exact Meter.limit_meterAfter hc f.scope
      | refused n why _ => rw [record_meter, Meter.limit_charge]
      | ran n s _ hs =>
        rw [record_meter, Meter.limit_charge]
        rfl
    have honward := h.meter hmeter
    rw [Meter.after_of_ne hr, exchange_gasUsed]
    exact Meter.eq_plus honward.cap hlimit honward.consumed

theorem Move.own {c : Command} {out : Except HostError Settled × Frame W} (h : f.Move config run c out) :
    out.2.scope.own = f.scope.own := by
  cases h with
  | done v hc hfunds => exact Scope.own_writeAll f.scope _
  | failed e hc => rfl
  | refused n why hc => rw [record_scope]
  | ran n s hc hs =>
    simp only [record_scope, resume]
    split <;> rfl

end Frame

/-! ## Faithful records -/

namespace CallRecord

/-- A node that was made for a frame as that frame was asked for by a caller. -/
structure Answers (bound : Nat) (caller : Address) (g : Grant) (t : CallRecord) : Prop where
  action : t.label.result.action = g.action.truncate bound
  entered : ∀ p, t.label.passage = some p →
    p.contract = g.nesting.target ∧ p.caller = caller ∧ p.invocation = g.nesting.invocation
  refused : t.label.passage = none → ∃ why, t = refused bound g.action why

/-- The nested frames that were asked for in the frame of a node. -/
def grants (limits : InputLimits) (t : CallRecord) : List Grant :=
  match t.label.passage with
  | some p => ContractHost.grants limits p.contract (.ofLimit t.gasLimit) p.exchanges
  | none => []

/-- What a node tells of how its frame ran. -/
structure Faithful (vm : Vm) (config : Config) (t : CallRecord) : Prop where
  /-- The exchanges are those of the program that the VM runs with the gas limit of the node. -/
  course : ∀ p, t.label.passage = some p →
    (vm.program p.invocation p.code t.gasLimit).Course p.exchanges p.ending
  /-- There is one child for every nested frame that was asked for, in order. -/
  children : ∀ p, t.label.passage = some p →
    List.Forall₂ (Answers config.maxArgsLength.toNat p.contract) (t.grants config.limits) t.children

def AllFaithful (vm : Vm) (config : Config) (t : CallRecord) : Prop :=
  ∀ u ∈ t.subtrees, Faithful vm config u

theorem answers_refused (bound : Nat) (caller : Address) (g : Grant) (why : Refusal) :
    Answers bound caller g (refused bound g.action why) :=
  ⟨rfl, nofun, fun _ => ⟨why, rfl⟩⟩

theorem allFaithful_refused (vm : Vm) (config : Config) (bound : Nat) (action : Action) (why : Refusal) :
    (refused bound action why).AllFaithful vm config :=
  Tree.forall_subtrees_iff.mpr ⟨⟨nofun, nofun⟩, nofun⟩

end CallRecord

open CallRecord (Answers AllFaithful)

namespace Frame

variable {W : Type} {vm : Vm} {config : Config} {contract : Address} {limit : Gas} {xs : List Exchange} {f : Frame W}

/-- What holds of a frame after exchanges. -/
structure Tracked (vm : Vm) (config : Config) (contract : Address) (limit : Gas) (xs : List Exchange) (f : Frame W) :
    Prop where
  own : f.scope.own.contract = contract
  sound : f.meter.Sound
  meter : f.meter = xs.foldl Meter.after (.ofLimit limit)
  children : List.Forall₂ (Answers config.maxArgsLength.toNat contract) (grants config.limits contract (.ofLimit limit) xs)
    f.children
  below : ∀ t ∈ f.children, t.AllFaithful vm config

theorem tracked_start (vm : Vm) (config : Config) (s : Scope W) (stack : CallStack) (limit : Gas) :
    (start s stack limit).Tracked vm config s.own.contract limit [] :=
  ⟨rfl, Meter.sound_ofLimit limit, rfl, .nil, nofun⟩

theorem Tracked.same (h : f.Tracked vm config contract limit xs) {x : Exchange} {g : Frame W}
    (hx : x.grant config.limits contract f.meter = none) (hown : g.scope.own = f.scope.own) (hsound : g.meter.Sound)
    (hmeter : g.meter = f.meter.after x) (hchildren : g.children = f.children) :
    g.Tracked vm config contract limit (xs ++ [x]) := by
  refine ⟨?_, hsound, ?_, ?_, ?_⟩
  · rw [hown]
    exact h.own
  · rw [hmeter, List.foldl_concat, ← h.meter]
  · rw [grants_concat, ← h.meter, hx, hchildren]
    exact (List.append_nil _).symm ▸ h.children
  · rw [hchildren]
    exact h.below

theorem Tracked.nest (h : f.Tracked vm config contract limit xs) {x : Exchange} {a : Grant} {g : Frame W}
    (hx : x.grant config.limits contract f.meter = some a) (hown : g.scope.own = f.scope.own) (hsound : g.meter.Sound)
    (hmeter : g.meter = f.meter.after x) {t : CallRecord} (hchildren : g.children = f.children ++ [t])
    (ht : t.Answers config.maxArgsLength.toNat contract a) (hbelow : t.AllFaithful vm config) :
    g.Tracked vm config contract limit (xs ++ [x]) := by
  refine ⟨?_, hsound, ?_, ?_, ?_⟩
  · rw [hown]
    exact h.own
  · rw [hmeter, List.foldl_concat, ← h.meter]
  · -- What is asked for last is granted from what the meter, told from the exchanges, has left.
    rw [grants_concat, ← h.meter, hx, hchildren]
    exact List.rel_append h.children (.cons ht .nil)
  · rw [hchildren]
    intro u hu
    rcases List.mem_append.mp hu with hu | hu
    · exact h.below u hu
    · rw [List.mem_singleton.mp hu]
      exact hbelow

theorem exchange_grant {r : Request} {c : Command} (hcheck : r.check config.limits f.scope.own.contract = .ok c)
    (m : Meter) (out : Except HostError Settled × Frame W) :
    (f.exchange r out).1.grant config.limits f.scope.own.contract m =
      c.nesting.map fun n => { nesting := n, gas := Gas.least n.gas m.remaining } := by
  simp only [Exchange.grant, exchange_request, hcheck]

theorem Tracked.fault (h : f.Tracked vm config contract limit xs) {r : Request} {e : HostError}
    (hcheck : r.check config.limits f.scope.own.contract = .error e) :
    (f.exchange r (.error e, f)).2.Tracked vm config contract limit (xs ++ [(f.exchange r (.error e, f)).1]) := by
  have hr : ∀ remaining, (f.exchange r (.error e, f)).1.request ≠ .setRemainingGas remaining := by
    rintro remaining heq
    rw [exchange_request] at heq
    subst heq
    cases hcheck
  have hmeter := Meter.eq_plus (m := f.meter) rfl rfl (Nat.le_refl _)
  apply h.same
  · rw [← h.own]
    simp only [Exchange.grant, exchange_request, hcheck]
  · rw [exchange_scope]
  · rw [exchange_meter]
    exact h.sound
  · rw [exchange_meter, Meter.after_of_ne hr, exchange_gasUsed]
    exact hmeter
  · rw [exchange_children]

end Frame

/-- A frame that was asked for and whose record tells so. -/
structure FrameOutcome.Told {W : Type} (vm : Vm) (config : Config) (g : Grant) (caller : Address)
    (outcome : FrameOutcome W) : Prop where
  answers : outcome.record.Answers config.maxArgsLength.toNat caller g
  below : outcome.record.AllFaithful vm config

/-- A way to run frames whose records tell so. -/
def Runner.Tells {W : Type} (vm : Vm) (config : Config) (run : Runner W) : Prop :=
  ∀ s stack i amount gas, (run s stack i amount gas).Told vm config
    { nesting := { target := s.own.contract, invocation := i, amount, gas }, gas } s.own.caller

namespace Frame

variable {W : Type} [World W] {vm : Vm} {config : Config} {run : Runner W} {contract : Address} {limit : Gas}
  {xs : List Exchange} {f : Frame W}

theorem Tracked.move (hrun : run.Tells vm config) (h : f.Tracked vm config contract limit xs) {r : Request} {c : Command}
    {out : Except HostError Settled × Frame W} (hcheck : r.check config.limits f.scope.own.contract = .ok c)
    (hmove : f.Move config run c out) :
    (f.exchange r out).2.Tracked vm config contract limit (xs ++ [(f.exchange r out).1]) := by
  have hgrant : (f.exchange r out).1.grant config.limits contract f.meter =
      c.nesting.map fun n => { nesting := n, gas := Gas.least n.gas f.meter.remaining } := by
    rw [← h.own]
    exact exchange_grant hcheck f.meter out
  have hown : (f.exchange r out).2.scope.own = f.scope.own := by rw [exchange_scope, hmove.own]
  have hsound : (f.exchange r out).2.meter.Sound := by
    rw [exchange_meter]
    exact (hmove.meter h.sound).sound
  have hmeter : (f.exchange r out).2.meter = f.meter.after (f.exchange r out).1 := by
    rw [exchange_meter]
    exact hmove.meter_after h.sound hcheck
  have hchildren := exchange_children f r out
  -- Where a nested frame is asked for, it is recorded, refused or not.
  cases hmove with
  | done v hc hfunds =>
    rw [hc] at hgrant
    exact h.same hgrant hown hsound hmeter hchildren
  | failed e hc =>
    rw [hc] at hgrant
    exact h.same hgrant hown hsound hmeter hchildren
  | refused n why hc =>
    rw [hc] at hgrant
    rw [record_children] at hchildren
    exact h.nest hgrant hown hsound hmeter hchildren (CallRecord.answers_refused _ _ _ why)
      (CallRecord.allFaithful_refused _ _ _ _ why)
  | ran n s hc hs =>
    rw [hc] at hgrant
    rw [record_children] at hchildren
    obtain ⟨hanswers, hbelow⟩ := hrun s f.stack n.invocation n.amount (Gas.least n.gas f.meter.remaining)
    obtain ⟨htarget, hcaller⟩ := hs.own hc
    refine h.nest hgrant hown hsound hmeter hchildren ⟨hanswers.action, ?_, hanswers.refused⟩ hbelow
    intro p hp
    obtain ⟨hcontract, hby, hinvocation⟩ := hanswers.entered p hp
    exact ⟨hcontract.trans htarget, hby.trans (hcaller.trans h.own), hinvocation⟩

theorem play_tracked (hrun : run.Tells vm config) {α : Type} (p : Program α) (s : Scope W) (stack : CallStack)
    (limit : Gas) :
    let played := play config run p (.start s stack limit)
    played.2.2.Tracked vm config s.own.contract limit played.1 := by
  refine play_induct (P := fun xs g => g.Tracked vm config s.own.contract limit xs) ?_ ?_ p [] _
    (tracked_start vm config s stack limit)
  · exact fun xs g r e hg hcheck => hg.fault hcheck
  · exact fun xs g r c out hg hcheck hmove => hg.move hrun hcheck hmove

end Frame

theorem runFrame_tells {W : Type} [World W] (vm : Vm) (config : Config) (room : Nat) :
    Runner.Tells (W := W) vm config (runFrame vm config room) := by
  intro s stack i amount gas
  refine runFrame_induct (P := fun s _ i amount gas outcome => outcome.Told vm config
    { nesting := { target := s.own.contract, invocation := i, amount, gas }, gas } s.own.caller) ?_ ?_
    room s stack i amount gas
  · intro s stack i amount gas e
    exact ⟨CallRecord.answers_refused _ _ _ (.barred e), CallRecord.allFaithful_refused _ _ _ _ (.barred e)⟩
  · intro run hrun s stack i amount gas entered _
    let played := Frame.play config run (vm.program i s.own.code gas) (.start s entered gas)
    have htracked : played.2.2.Tracked vm config s.own.contract gas played.1 :=
      Frame.play_tracked hrun (vm.program i s.own.code gas) s entered gas
    have haction : (runEntered vm config run entered s stack i amount gas).record.label.result.action =
        (i.action amount gas).truncate config.maxArgsLength.toNat := rfl
    have hlimit : (runEntered vm config run entered s stack i amount gas).record.gasLimit = gas := by
      rw [CallRecord.gasLimit, haction]
      exact i.gasLimit_action amount gas
    refine ⟨⟨haction, ?_, nofun⟩, Tree.forall_subtrees_iff.mpr ⟨⟨?_, ?_⟩, htracked.below⟩⟩
    · intro p hp
      cases hp
      exact ⟨rfl, rfl, rfl⟩
    · intro p hp
      rw [hlimit]
      cases hp
      exact Frame.play_course config run (vm.program i s.own.code gas) (.start s entered gas)
    · intro p hp
      rw [CallRecord.grants, hp, hlimit]
      cases hp
      exact htracked.children

/-! ## Arguments that are cut -/

namespace CallRecord

mutual

/-- The result of a call tree with all arguments of every frame. The outermost one was to do `action`. -/
def whole (limits : InputLimits) (action : Action) : CallRecord → ResultTree
  | .node r below => .node { r.result with action } (wholeAll limits (grants limits (.node r below)) below)

def wholeAll (limits : InputLimits) : List Grant → List CallRecord → List ResultTree
  | g :: gs, t :: ts => whole limits g.action t :: wholeAll limits gs ts
  | _, _ => []

end

theorem wholeAll_nil (limits : InputLimits) (gs : List Grant) : wholeAll limits gs [] = [] := by
  cases gs <;> rfl

end CallRecord

def FrameResult.truncate (bound : Nat) (r : FrameResult) : FrameResult :=
  { r with action := r.action.truncate bound }

def FrameResult.argless (r : FrameResult) : FrameResult :=
  { r with action := { r.action with args := [] } }

namespace ResultTree

theorem argless_truncateArgs (bound : Nat) (t : ResultTree) :
    (t.truncateArgs bound).map FrameResult.argless = t.map FrameResult.argless := by
  rw [truncateArgs, Tree.map_map]
  rfl

theorem truncateArgs_truncateArgs (bound : Nat) (t : ResultTree) :
    (t.truncateArgs bound).truncateArgs bound = t.truncateArgs bound := by
  simp only [truncateArgs, Tree.map_map, Function.comp_def, List.take_take, Nat.min_self]

end ResultTree

namespace CallRecord

variable {vm : Vm} {config : Config}

mutual

/-- The reported result is the whole one with the arguments cut. -/
theorem result_eq_truncateArgs (t : CallRecord) {caller : Address} {g : Grant}
    (h : t.Answers config.maxArgsLength.toNat caller g) (hall : t.AllFaithful vm config) :
    t.result = (t.whole config.limits g.action).truncateArgs config.maxArgsLength.toNat := by
  match t with
  | .node r below =>
    have hroot : { r.result with action := g.action.truncate config.maxArgsLength.toNat } = r.result := by
      rw [← h.action]
      rfl
    have hbelow : Tree.mapAll FrameRecord.result below =
        Tree.mapAll (FrameResult.truncate config.maxArgsLength.toNat)
          (wholeAll config.limits (grants config.limits (.node r below)) below) := by
      cases hp : r.passage with
      | some p =>
        obtain ⟨hroot, hchildren⟩ := Tree.forall_subtrees_iff.mp hall
        exact resultAll_eq_truncateArgs below (hroot.children p hp) hchildren
      | none =>
        -- A frame that was not entered has no children.
        obtain ⟨why, hrefused⟩ := h.refused hp
        obtain ⟨-, rfl⟩ := Tree.node.inj hrefused
        rw [wholeAll_nil, Tree.mapAll, Tree.mapAll]
    show Tree.node r.result (Tree.mapAll FrameRecord.result below) =
      .node { r.result with action := g.action.truncate config.maxArgsLength.toNat }
        (Tree.mapAll (FrameResult.truncate config.maxArgsLength.toNat)
          (wholeAll config.limits (grants config.limits (.node r below)) below))
    rw [hroot, hbelow]

theorem resultAll_eq_truncateArgs (ts : List CallRecord) {caller : Address} {gs : List Grant}
    (h : List.Forall₂ (Answers config.maxArgsLength.toNat caller) gs ts) (hall : ∀ t ∈ ts, t.AllFaithful vm config) :
    Tree.mapAll FrameRecord.result ts =
      Tree.mapAll (FrameResult.truncate config.maxArgsLength.toNat) (wholeAll config.limits gs ts) := by
  match ts, h with
  | [], .nil => rfl
  | t :: ts, .cons hfirst hrest =>
    have hresult := result_eq_truncateArgs t hfirst (hall t List.mem_cons_self)
    have hresults := resultAll_eq_truncateArgs ts hrest fun u hu => hall u (List.mem_cons_of_mem _ hu)
    rw [Tree.mapAll, wholeAll, Tree.mapAll, ← hresults]
    exact congrArg (· :: Tree.mapAll FrameRecord.result ts) hresult

end

theorem truncateArgs_result {t : CallRecord} {caller : Address} {g : Grant}
    (h : t.Answers config.maxArgsLength.toNat caller g) (hall : t.AllFaithful vm config) :
    t.result.truncateArgs config.maxArgsLength.toNat = t.result := by
  rw [result_eq_truncateArgs t h hall, ResultTree.truncateArgs_truncateArgs]

end CallRecord

/-! ## Orders -/

/-- The outermost frame as an order asks for it. It is granted the whole gas limit. -/
def Order.grant (order : Order) : Grant where
  nesting :=
    { target := match order with
        | execute o => o.contract
        | deploy o => o.address
      invocation := order.invocation, amount := order.amount, gas := order.gasLimit }
  gas := order.gasLimit

theorem Order.Entry.own {W : Type} [World W] {config : Config} {store : Store} {world : W} {order : Order} {s : Scope W}
    (h : Order.Entry config store world order s) :
    s.own.contract = order.grant.nesting.target ∧ s.own.caller = order.caller := by
  cases h with
  | execute o b code s hcode hmethod hs => exact ⟨Scope.receive_contract hs, Scope.receive_caller hs⟩
  | deploy o s hcode hs => exact ⟨Scope.receive_contract hs, Scope.receive_caller hs⟩

theorem Host.outermost_told {W : Type} [World W] {h : Host} {store : Store} {world : W} {order : Order} {s : Scope W}
    (hs : Order.Entry h.config store world order s) :
    (h.outermost order s).Told h.vm h.config order.grant order.caller := by
  obtain ⟨hcontract, hcaller⟩ := hs.own
  have htold := runFrame_tells h.vm h.config h.config.maxCallDepth.toNat s h.stack order.invocation order.amount
    order.gasLimit
  rw [hcontract, hcaller] at htold
  exact htold

namespace Host

theorem carryOut_told (h : Host) (store : Store) (order : Order) {t : CallRecord}
    (ht : (h.carryOut store order).record = some t) :
    t.Answers h.config.maxArgsLength.toNat order.caller order.grant ∧ t.AllFaithful h.vm h.config := by
  obtain ⟨-, ⟨why, rfl⟩ | ⟨s, hs, rfl⟩⟩ := carryOut_record ht
  · exact ⟨CallRecord.answers_refused _ _ order.grant why, CallRecord.allFaithful_refused _ _ _ _ why⟩
  · exact ⟨(outermost_told hs).answers, (outermost_told hs).below⟩

theorem carryOut_reports (h : Host) (store : Store) (order : Order) :
    match (h.carryOut store order).record with
    | none => ∃ e, (h.carryOut store order).answer = .error e
    | some t => ∀ outcome, (h.carryOut store order).answer = .ok outcome → outcome.result = t.result := by
  cases hrecord : (h.carryOut store order).record with
  | none => exact carryOut_unrecorded hrecord
  | some t =>
    intro outcome houtcome
    obtain ⟨t', ht', hresult, -⟩ := carryOut_answer houtcome
    rw [hrecord] at ht'
    cases ht'
    exact hresult

/-- The record of an order tells at every node what the frame was asked to do, by whom and with how much gas, and has a
child for every nested frame that was asked for with readable inputs, in order. This holds below all frames, however they
ended. What is reported is the same with the arguments cut, and cutting them changes nothing else. -/
theorem carryOut_faithful (h : Host) (store : Store) (order : Order) :
    let c := h.carryOut store order
    let bound := h.config.maxArgsLength.toNat
    (match c.record with
      | none => ∃ e, c.answer = .error e
      | some t =>
        t.Answers bound order.caller order.grant ∧
        (∀ u ∈ t.subtrees, CallRecord.Faithful h.vm h.config u) ∧
        t.result = (t.whole h.config.limits order.grant.action).truncateArgs bound ∧
        t.result.truncateArgs bound = t.result ∧
        ∀ outcome, c.answer = .ok outcome → outcome.result = t.result) ∧
    ∀ result : ResultTree, (result.truncateArgs bound).map FrameResult.argless = result.map FrameResult.argless := by
  refine ⟨?_, ResultTree.argless_truncateArgs h.config.maxArgsLength.toNat⟩
  have hreports := h.carryOut_reports store order
  cases hrecord : (h.carryOut store order).record with
  | none =>
    rw [hrecord] at hreports
    exact hreports
  | some t =>
    rw [hrecord] at hreports
    obtain ⟨hanswers, hall⟩ := h.carryOut_told store order hrecord
    exact ⟨hanswers, hall, CallRecord.result_eq_truncateArgs t hanswers hall,
      CallRecord.truncateArgs_result hanswers hall, hreports⟩

end Host

end ContractHost
