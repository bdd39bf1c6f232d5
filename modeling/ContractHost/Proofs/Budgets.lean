import Mathlib.Data.List.Forall2
import ContractHost.Proofs.ReadableResults
import ContractHost.Proofs.Upshots
/-!
# Frames under two gas limits

Two frames of one script that have got different gas limits are abreast if they have asked for the same and were told the
same. A request keeps them abreast as long as both can pay for it, because nothing but the price and the grants of nested
frames has to do with what is left.
-/
namespace ContractHost

variable {W : Type}

/-! ## Results without budgets -/

/-- A result without what depends on the gas that was granted. -/
def FrameResult.unbudgeted (r : FrameResult) : FrameResult :=
  { r with action := { r.action with gasLimit := 0 }, remaining := 0 }

/-- A result tree without what depends on the gas that was granted. -/
def ResultTree.unbudgeted (t : ResultTree) : ResultTree :=
  t.map FrameResult.unbudgeted

namespace CallRecord

/-- A call tree in which every frame has succeeded. -/
def Thriving (t : CallRecord) : Prop :=
  ∀ u ∈ t.subtrees, success u = true

/-- A call tree the result of which has a length that can be written. -/
def Encodable (t : CallRecord) : Prop :=
  t.result.toBytes.length < 2 ^ 64

theorem not_thriving_refused (bound : Nat) (action : Action) (why : Refusal) : ¬ (refused bound action why).Thriving :=
  fun h => Bool.false_ne_true (h _ (Tree.self_mem_subtrees _))

theorem thriving_of_result {t : CallRecord} (h : ∀ u ∈ t.result.subtrees, u.label.success = true) : t.Thriving := by
  intro u hu
  have hmem : result u ∈ t.result.subtrees := by
    rw [result, result, Tree.subtrees_map]
    exact List.mem_map_of_mem hu
  have hsuccess := h _ hmem
  rw [result, Tree.label_map] at hsuccess
  exact hsuccess

theorem Thriving.child {t u : CallRecord} (h : t.Thriving) (hu : u ∈ t.children) : Thriving u :=
  (Tree.forall_subtrees_iff.mp h).2 u hu

theorem Encodable.child {t u : CallRecord} (h : t.Encodable) (hu : u ∈ t.children) : Encodable u := by
  have hmem : u.result ∈ t.result.children := by
    rw [result, result, Tree.children_map]
    exact List.mem_map_of_mem hu
  exact Nat.lt_of_le_of_lt (ResultTree.length_toBytes_le hmem) h

/-- Call trees that differ in their budgets only. -/
def Resembles (t u : CallRecord) : Prop :=
  t.result.unbudgeted = u.result.unbudgeted

variable {t u : CallRecord} (h : t.Resembles u)
include h

theorem Resembles.told {β : Type} (tell : FrameResult → β) (htell : ∀ r : FrameResult, tell r.unbudgeted = tell r) :
    tell t.label.result = tell u.label.result := by
  have hroots := Tree.told_of_map_eq h tell htell
  rw [result, result, Tree.label_map, Tree.label_map] at hroots
  exact hroots

theorem Resembles.success : t.success = u.success :=
  h.told FrameResult.success fun _ => rfl

theorem Resembles.gasUsed : t.gasUsed = u.gasUsed :=
  h.told FrameResult.gasUsed fun _ => rfl

theorem Resembles.output : t.label.result.output = u.label.result.output :=
  h.told FrameResult.output fun _ => rfl

end CallRecord

open CallRecord (Resembles Thriving Encodable)

/-! ## Frames abreast -/

namespace Frame

/-- Frames of one script under two gas limits that have come equally far: `used` is the script's account. -/
structure Abreast (config : Config) (room : Nat) (limit limit' used : Gas) (f f' : Frame W) : Prop where
  scope : f'.scope = f.scope
  stack : f'.stack = f.stack
  consumed : f'.meter.consumed = f.meter.consumed
  account : f.meter.consumed.toNat ≤ used.toNat
  cap : f.meter.cap = limit
  cap' : f'.meter.cap = limit'
  inOrder : f.InOrder config room
  inOrder' : f'.InOrder config room
  ranOut : f'.ranOut = f.ranOut
  children : List.Forall₂ Resembles f'.children f.children
  /-- What is left of either limit has a price that can be written. -/
  price : Amount.Fits (f.scope.chain.minFeePerGas * max limit.toNat limit'.toNat)

variable {config : Config} {room : Nat} {limit limit' used : Gas} {f f' : Frame W}

theorem Abreast.mono (h : Abreast config room limit limit' used f f') {used' : Gas} (hle : used.toNat ≤ used'.toNat) :
    Abreast config room limit limit' used' f f' :=
  { h with account := Nat.le_trans h.account hle }

/-- Frames that are abreast and were told what the script has left. -/
structure Ready (config : Config) (room : Nat) (limit limit' used : Gas) (f f' : Frame W) : Prop extends
    Abreast config room limit limit' used f f' where
  left : f.meter.remaining.toNat = limit.toNat - used.toNat
  left' : f'.meter.remaining.toNat = limit'.toNat - used.toNat

theorem Abreast.ready (h : Abreast config room limit limit' used f f') (hused : used.toNat ≤ limit.toNat)
    (hused' : used.toNat ≤ limit'.toNat) :
    Ready config room limit limit' used (f.sync (Gas.minus limit used)) (f'.sync (Gas.minus limit' used)) where
  scope := h.scope
  stack := h.stack
  consumed := h.consumed
  account := h.account
  cap := h.cap
  cap' := h.cap'
  inOrder := h.inOrder.same (h.inOrder.meter.setRemaining _).sound rfl
  inOrder' := h.inOrder'.same (h.inOrder'.meter.setRemaining _).sound rfl
  ranOut := h.ranOut
  children := h.children
  price := h.price
  left := Meter.toNat_remaining_told h.cap h.account hused
  left' := by
    have haccount := h.account
    rw [← h.consumed] at haccount
    exact Meter.toNat_remaining_told h.cap' haccount hused'

variable [World W]

theorem Abreast.answer {vm : Vm} (h : Abreast config room limit limit' used f f') (r : Request) {used' : Gas}
    {x x' : Exchange} {g g' : Frame W} (hx : f.answer config (runFrame vm config room) r = (x, g))
    (hx' : f'.answer config (runFrame vm config room) r = (x', g')) (hscope : g'.scope = g.scope)
    (hconsumed : g'.meter.consumed = g.meter.consumed) (haccount : g.meter.consumed.toNat ≤ used'.toNat)
    (hran : g'.ranOut = g.ranOut) (hchildren : List.Forall₂ Resembles g'.children g.children) :
    Abreast config room limit limit' used' g g' := by
  have hg : g = (f.answer config (runFrame vm config room) r).2 := by rw [hx]
  have hg' : g' = (f'.answer config (runFrame vm config room) r).2 := by rw [hx']
  have hstore : g.scope.store = f.scope.store := by rw [hg, (answer_kin config (runFrame vm config room) f r).store]
  refine ⟨hscope, ?_, hconsumed, haccount, ?_, ?_, ?_, ?_, hran, hchildren, ?_⟩
  · rw [hg, hg', answer_stack vm room h.inOrder'.counted, answer_stack vm room h.inOrder.counted, h.stack]
  · rw [hg, (answer_onward config _ h.inOrder.meter r).cap, h.cap]
  · rw [hg', (answer_onward config _ h.inOrder'.meter r).cap, h.cap']
  · rw [hg]
    exact h.inOrder.answer r
  · rw [hg']
    exact h.inOrder'.answer r
  · rw [Scope.chain, hstore]
    exact h.price

end Frame

/-! ## Requests without a nested frame -/

theorem Request.Reads.steady {limits : InputLimits} {self : Address} {r : Request} {c : Command}
    (h : r.Reads limits self c) (hr : r.steady = true) : c.steady = true := by
  cases h with
  | setRemainingGas | call | deploy => cases hr
  | fact x =>
    cases x with
    | gasLimit | gasLeft => cases hr
    | _ => rfl
  | _ => rfl

namespace Frame

variable [World W] {config : Config} {run : Runner W} {f : Frame W} {r : Request} {c : Command} {m : Meter}

theorem answer_fault (run : Runner W) {e : HostError} (hcheck : r.check config.limits f.scope.own.contract = .error e) :
    f.answer config run r = f.exchange r (.error e, f) := by
  rw [answer, hcheck]

theorem answer_checked (hcheck : r.check config.limits f.scope.own.contract = .ok c) :
    f.answer config run r = f.exchange r (f.perform config run c) := by
  rw [answer, hcheck]

theorem charge_of_answer_ok (hf : f.meter.Sound) (hcheck : r.check config.limits f.scope.own.contract = .ok c)
    (hok : (f.answer config run r).1.reply.status = .ok) :
    ∃ m, f.meter.charge (c.price f.scope) = (.ok (), m) := by
  cases hcharge : f.meter.charge (c.price f.scope) with
  | mk paid m =>
    cases paid with
    | ok u => exact ⟨m, rfl⟩
    | error e =>
      rw [answer_checked hcheck, perform_unpaid hf hcharge] at hok
      exact absurd hok e.status_ne_ok

theorem answer_settled {config : Config} {run : Runner W} {v : Value} {scope : Scope W}
    (hcheck : r.check config.limits f.scope.own.contract = .ok c)
    (hperform : f.perform config run c = f.settle m (.ok (v, scope))) :
    f.answer config run r =
      ({ request := r, reply := .ok v (Gas.minus m.consumed f.meter.consumed), nested := false },
        { f with scope, meter := m }) := by
  rw [answer_checked hcheck, hperform]
  rfl

theorem settled_of_answer_ok {settled : Except HostError (Value × Scope W)}
    (hcheck : r.check config.limits f.scope.own.contract = .ok c) (hperform : f.perform config run c = f.settle m settled)
    (hok : (f.answer config run r).1.reply.status = .ok) : ∃ v scope, settled = .ok (v, scope) := by
  cases settled with
  | ok out => exact ⟨out.1, out.2, rfl⟩
  | error e =>
    rw [answer_checked hcheck, hperform] at hok
    exact absurd hok e.status_ne_ok

theorem gasUsed_of_paid (run : Runner W) (hf : f.meter.Sound) (hcheck : r.check config.limits f.scope.own.contract = .ok c)
    (hc : c.nesting = none) (hm : f.meter.charge (c.price f.scope) = (.ok (), m)) :
    (f.answer config run r).1.reply.gasUsed = c.price f.scope := by
  have hmeter : (f.perform config run c).2.meter.consumed = m.consumed := by
    rw [(perform_alone config run f hc).1, c.consumed_meterAfter f.scope hf, hm]
  rw [answer_checked hcheck, exchange_gasUsed, hmeter]
  exact Meter.minus_of_charge hm

variable {room : Nat} {limit limit' used : Gas} {f' : Frame W} {vm : Vm}

/-- A request without a nested frame that succeeds under one gas limit does so under the other one, if that suffices. -/
theorem Ready.answer_steady (h : Ready config room limit limit' used f f') (hr : r.steady = true) {x : Exchange}
    {g : Frame W} (hx : f.answer config (runFrame vm config room) r = (x, g)) (hok : x.reply.status = .ok)
    (hfits : (Gas.plus used x.reply.gasUsed).toNat ≤ limit'.toNat) :
    ∃ x' g', f'.answer config (runFrame vm config room) r = (x', g') ∧ x'.reply = x.reply ∧
      Abreast config room limit limit' (Gas.plus used x.reply.gasUsed) g g' := by
  have hsound := h.inOrder.meter
  have hsound' := h.inOrder'.meter
  have hanswer : (f.answer config (runFrame vm config room) r).1.reply.status = .ok := by
    rw [hx]
    exact hok
  cases hcheck : r.check config.limits f.scope.own.contract with
  | error e =>
    rw [answer_fault _ hcheck] at hanswer
    exact absurd hanswer e.status_ne_ok
  | ok c =>
    have hcheck' : r.check config.limits f'.scope.own.contract = .ok c := by
      rw [h.scope]
      exact hcheck
    have hsteady := (Request.check_reads hcheck).steady hr
    obtain ⟨m, hm⟩ := charge_of_answer_ok hsound hcheck hanswer
    have hgas : x.reply.gasUsed = c.price f.scope := by
      have hused := gasUsed_of_paid (runFrame vm config room) hsound hcheck (Command.nesting_of_steady hsteady) hm
      rw [hx] at hused
      exact hused
    have hpaid := Meter.le_of_charge hm
    have hconsumed' := hsound'.consumed
    have hleft := h.left
    have hleft' := h.left'
    rw [Meter.toNat_remaining] at hleft hleft'
    -- What the request costs was left under the first limit, so the account does not overflow.
    have hcost : (c.price f.scope).toNat ≤ limit.toNat - used.toNat := by omega
    have hsum := Gas.toNat_plus_of_left hcost
    rw [hgas] at hfits ⊢
    obtain ⟨m', hm', hsame⟩ := Meter.charge_alike (n := f'.meter) h.consumed hm (by omega)
    obtain ⟨settled, hperform, hperform'⟩ := perform_paid config (runFrame vm config room) hsteady h.scope
      hsound hsound' hm hm'
    obtain ⟨v, scope, rfl⟩ := settled_of_answer_ok hcheck hperform hanswer
    have hanswered := answer_settled hcheck hperform
    have hanswered' := answer_settled hcheck' hperform'
    rw [hx] at hanswered
    cases hanswered
    refine ⟨_, _, hanswered', ?_, ?_⟩
    · rw [Meter.minus_of_charge hm, Meter.minus_of_charge hm']
    · apply h.toAbreast.answer r hx hanswered'
      · rfl
      · exact hsame
      · have haccount := h.account
        rw [Meter.consumed_of_charge hm, hsum]
        omega
      · exact h.ranOut
      · exact h.children

end Frame

/-! ## Requests for nested frames -/

/-- Outcomes of a frame under two gas limits that differ in the budgets only. -/
structure FrameOutcome.Matches (o o' : FrameOutcome W) : Prop where
  world : o'.world = o.world
  record : o'.record.Resembles o.record
  status : o'.record.label.status = o.record.label.status

namespace Frame

/-- A frame of which all nested frames have a result with a length that can be written. -/
def Encodes (f : Frame W) : Prop :=
  ∀ t ∈ f.children, Encodable t

/-- A frame of which all nested frames have succeeded, with results that can be written. -/
def Thrives (f : Frame W) : Prop :=
  ∀ t ∈ f.children, Thriving t ∧ Encodable t

variable {config : Config} {room : Nat} {limit limit' used : Gas} {f f' : Frame W} {n : Command.Nesting}

theorem Abreast.price_granted (h : Abreast config room limit limit' used f f') {s : Scope W}
    (hs : s.store = f.scope.store) (n : Command.Nesting) :
    Amount.Fits (s.chain.minFeePerGas *
      max (Gas.least n.gas f.meter.remaining).toNat (Gas.least n.gas f'.meter.remaining).toNat) := by
  have hlimit := f.toNat_limit n
  have hlimit' := f'.toNat_limit n
  have hmeter := h.inOrder.meter.limit
  have hmeter' := h.inOrder'.meter.limit
  rw [h.cap] at hmeter
  rw [h.cap'] at hmeter'
  rw [Meter.toNat_remaining] at hlimit hlimit'
  have hprice := h.price
  rw [Scope.chain, ← hs] at hprice
  exact Nat.lt_of_le_of_lt (Nat.mul_le_mul_left _ (by omega)) hprice

theorem Records.outputOf {g : Frame W} {reply : Reply} {t : CallRecord} (h : f.Records g n reply t) (hread : t.Readable)
    (hsize : t.Encodable) : Script.Session.outputOf reply = t.label.result.output := by
  have hvalue : ResultTree.ofBytes (Value.bytes (some t.result.toBytes)).toBytes = .ok t.result := hread.result hsize
  rw [Script.Session.outputOf, h.value, hvalue]
  exact congrArg FrameResult.output (Tree.label_map _ _)

theorem Records.mem_children {g : Frame W} {reply : Reply} {t : CallRecord} (h : f.Records g n reply t) :
    t ∈ g.children := by
  rw [h.children]
  exact List.mem_append_right _ (List.mem_singleton_self _)

end Frame

variable [World W]

theorem FrameOutcome.Matches.resume {o o' : FrameOutcome W} (h : o.Matches o') {f f' : Frame W}
    (hscope : f'.scope = f.scope) : (f'.resume o').scope = (f.resume o).scope := by
  show (if o'.record.success then f'.scope.join o'.world else f'.scope) = _
  rw [h.record.success, h.world, hscope]
  rfl

/-- Whether a frame for which there is some room comes to the same under another gas limit, if all frames succeed and if
what they use is no more than that limit. -/
def Sufficient (W : Type) [World W] (vm : Vm) (config : Config) (room : Nat) : Prop :=
  ∀ (s : Scope W) (stack : CallStack) (i : Invocation) (amount : Amount) (gas gas' : Gas), stack.InOrder config room →
    Amount.Fits (s.chain.minFeePerGas * max gas.toNat gas'.toNat) →
    let o := runFrame vm config room s stack i amount gas
    let o' := runFrame vm config room s stack i amount gas'
    o.record.Thriving → o.record.Encodable → o'.record.Encodable → o.record.gasUsed.toNat ≤ gas'.toNat → o.Matches o'

theorem Request.Reads.nesting_eq_none {limits : InputLimits} {self : Address} {r : Request} {c : Command}
    (h : r.Reads limits self c) (hr : r.nests = false) : c.nesting = none := by
  cases h with
  | call | deploy => cases hr
  | _ => rfl

theorem Request.Reads.nests {limits : InputLimits} {self : Address} {r : Request} {c : Command}
    (h : r.Reads limits self c) (hr : r.nests = true) : ∃ n, c.nesting = some n := by
  cases h with
  | call | deploy => exact ⟨_, rfl⟩
  | _ => cases hr

namespace Frame

variable {config : Config} {room : Nat} {f : Frame W} {r : Request} {n : Command.Nesting} {s : Scope W} {vm : Vm}

theorem entered?_some (h : f.entered? config r = some (n, s)) :
    ∃ c, r.check config.limits f.scope.own.contract = .ok c ∧ c.nesting = some n ∧ f.Entry c s := by
  simp only [entered?] at h
  cases hcheck : r.check config.limits f.scope.own.contract with
  | error e =>
    rw [hcheck] at h
    cases h
  | ok c =>
    rw [hcheck] at h
    obtain ⟨hn, hs⟩ := admission?_some h
    exact ⟨c, rfl, hn, hs⟩

theorem refused_of_entered?_none (run : Runner W) {c : Command} (hr : r.nests = true)
    (hcheck : r.check config.limits f.scope.own.contract = .ok c) (h : f.entered? config r = none) :
    ∃ t ∈ (f.answer config run r).2.children, ¬ CallRecord.Thriving t := by
  obtain ⟨n, hn⟩ := (Request.check_reads hcheck).nests hr
  have hnone : f.admission? c = none := by
    rw [entered?, hcheck] at h
    exact h
  obtain ⟨why, hwhy⟩ := opening_of_admission?_none hn hnone
  have hperform := perform_refused config run hn hwhy
  refine ⟨_, ?_, CallRecord.not_thriving_refused config.maxArgsLength.toNat
    (n.invocation.action n.amount (Gas.least n.gas f.meter.remaining)) why⟩
  rw [answer_checked hcheck, hperform, exchange_children, record_children]
  exact List.mem_append_right _ (List.mem_singleton_self _)

theorem answer_entered (hf : f.meter.Sound) (h : f.entered? config r = some (n, s)) {x : Exchange} {g : Frame W}
    (hx : f.answer config (runFrame vm config room) r = (x, g)) :
    let outcome := runFrame vm config room s f.stack n.invocation n.amount (Gas.least n.gas f.meter.remaining)
    f.Records g n x.reply outcome.record ∧ g.scope = (f.resume outcome).scope ∧ g.ranOut = f.ranOut := by
  intro outcome
  obtain ⟨hlimit, hsound⟩ := runFrame_keepsGas vm config room s f.stack n.invocation n.amount
    (Gas.least n.gas f.meter.remaining)
  have hle := f.used_le_limit n hlimit hsound
  obtain ⟨hpaid, hrecords⟩ := records_of_le (f := f) (g := f.resume outcome) rfl rfl hf hle r
  have hscope : ((f.resume outcome).record outcome.record).2.scope = (f.resume outcome).scope := record_scope _ _
  have hran : ((f.resume outcome).record outcome.record).2.ranOut = f.ranOut := record_ranOut _ _
  have hanswer := answer_of_entered?_some h (runFrame vm config room)
  change _ = f.exchange r ((f.resume outcome).record outcome.record) at hanswer
  rw [hx] at hanswer
  -- The record was paid for, so the exchange adds nothing to it.
  generalize (f.resume outcome).record outcome.record = out at hpaid hrecords hscope hran hanswer
  obtain ⟨settled, after⟩ := out
  cases hpaid
  rw [← hanswer] at hrecords
  cases hanswer
  exact ⟨hrecords, hscope, hran⟩

variable {limit limit' used : Gas} {f' : Frame W}

theorem Abreast.answer_fault (h : Abreast config room limit limit' used f f') {e : HostError}
    (hcheck : r.check config.limits f.scope.own.contract = .error e) {x x' : Exchange} {g g' : Frame W}
    (hx : f.answer config (runFrame vm config room) r = (x, g))
    (hx' : f'.answer config (runFrame vm config room) r = (x', g')) :
    x'.reply = x.reply ∧ x.reply.gasUsed = 0 ∧ Abreast config room limit limit' used g g' := by
  have hcheck' : r.check config.limits f'.scope.own.contract = .error e := by
    rw [h.scope]
    exact hcheck
  have hfault := Frame.answer_fault (runFrame vm config room) hcheck
  have hfault' := Frame.answer_fault (runFrame vm config room) hcheck'
  rw [hx] at hfault
  rw [hx'] at hfault'
  cases hfault
  cases hfault'
  refine ⟨?_, Gas.minus_self _, h.answer r hx hx' h.scope h.consumed h.account ?_ h.children⟩
  · show Reply.failed e r.blank (Gas.minus f'.meter.consumed f'.meter.consumed) =
      .failed e r.blank (Gas.minus f.meter.consumed f.meter.consumed)
    rw [h.consumed]
  · show (f'.ranOut || decide (e.status = .outOfGas)) = (f.ranOut || decide (e.status = .outOfGas))
    rw [h.ranOut]

theorem Ready.answer_entered (hroom : room < Wire.maxDepth) (hbelow : Sufficient W vm config room)
    (h : Ready config room limit limit' used f f') (hentered : f.entered? config r = some (n, s)) {x x' : Exchange}
    {g g' : Frame W} (hx : f.answer config (runFrame vm config room) r = (x, g))
    (hx' : f'.answer config (runFrame vm config room) r = (x', g')) (hthrives : g.Thrives) (hencodes : g'.Encodes)
    (hfits : (Gas.plus used x.reply.gasUsed).toNat ≤ limit'.toNat) :
    x'.reply.status = x.reply.status ∧ x'.reply.gasUsed = x.reply.gasUsed ∧
      Script.Session.outputOf x'.reply = Script.Session.outputOf x.reply ∧
      Abreast config room limit limit' (Gas.plus used x.reply.gasUsed) g g' := by
  let gas := Gas.least n.gas f.meter.remaining
  let gas' := Gas.least n.gas f'.meter.remaining
  let o := runFrame vm config room s f.stack n.invocation n.amount gas
  let o' := runFrame vm config room s f.stack n.invocation n.amount gas'
  have hentered' := (entered?_congr h.scope h.stack r).trans hentered
  obtain ⟨c, hcheck, hn, hs⟩ := entered?_some hentered
  obtain ⟨hrecords, hscope, hran⟩ := Frame.answer_entered h.inOrder.meter hentered hx
  obtain ⟨hrecords', hscope', hran'⟩ := Frame.answer_entered h.inOrder'.meter hentered' hx'
  rw [h.stack] at hrecords' hscope'
  change f.Records g n x.reply o.record at hrecords
  change f'.Records g' n x'.reply o'.record at hrecords'
  obtain ⟨hthriving, hencodable⟩ := hthrives _ hrecords.mem_children
  have hencodable' := hencodes _ hrecords'.mem_children
  -- What the nested frame used was left under the first limit, and the account of the script says that it is left under
  -- the second one.
  have hbounded := hrecords.bounded
  have hleft := h.left
  have hleft' := h.left'
  have hcost : o.record.gasUsed.toNat ≤ limit.toNat - used.toNat := by omega
  have hsum := Gas.toNat_plus_of_left hcost
  rw [hrecords.gasUsed] at hfits ⊢
  have hgranted : o.record.gasUsed.toNat ≤ gas'.toNat := by
    have hlimit' : gas'.toNat = min n.gas.toNat f'.meter.remaining.toNat := f'.toNat_limit n
    omega
  have hprice := h.price_granted hs.kin.store n
  have hmatches : o.Matches o' := hbelow s f.stack n.invocation n.amount gas gas' h.inOrder.onStack hprice hthriving
    hencodable hencodable' hgranted
  have hread : ∀ granted, granted.toNat ≤ max gas.toNat gas'.toNat →
      (runFrame vm config room s f.stack n.invocation n.amount granted).record.Readable := by
    intro granted hle
    have hamount := (Request.check_reads hcheck).nesting_fits hn
    have hpaid : Amount.Fits (s.chain.minFeePerGas * granted.toNat) :=
      Nat.lt_of_le_of_lt (Nat.mul_le_mul_left _ hle) hprice
    exact runFrame_readable vm config s f.stack n.invocation hroom hamount hpaid _ (Tree.self_mem_subtrees _)
  refine ⟨?_, ?_, ?_, h.toAbreast.answer r hx hx' ?_ ?_ ?_ ?_ ?_⟩
  · rw [hrecords'.status, hrecords.status, hmatches.record.success]
  · rw [hrecords'.gasUsed, hmatches.record.gasUsed]
  · rw [hrecords'.outputOf (hread gas' (Nat.le_max_right _ _)) hencodable',
      hrecords.outputOf (hread gas (Nat.le_max_left _ _)) hencodable, hmatches.record.output]
  · exact hscope'.trans ((hmatches.resume h.scope).trans hscope.symm)
  · apply UInt64.toNat_inj.mp
    rw [hrecords'.consumed, hrecords.consumed, h.consumed, hmatches.record.gasUsed]
  · have haccount := h.account
    rw [hrecords.consumed, hsum]
    omega
  · rw [hran', hran, h.ranOut]
  · rw [hrecords'.children, hrecords.children]
    exact List.rel_append h.children (.cons hmatches.record .nil)

/-- A request for a nested frame comes to the same under another limit if this suffices for what the nested frame uses. -/
theorem Ready.answer_nested (hroom : room < Wire.maxDepth) (hbelow : Sufficient W vm config room)
    (h : Ready config room limit limit' used f f') (hr : r.nests = true) {x x' : Exchange} {g g' : Frame W}
    (hx : f.answer config (runFrame vm config room) r = (x, g))
    (hx' : f'.answer config (runFrame vm config room) r = (x', g')) (hthrives : g.Thrives) (hencodes : g'.Encodes)
    (hfits : (Gas.plus used x.reply.gasUsed).toNat ≤ limit'.toNat) :
    x'.reply.status = x.reply.status ∧ x'.reply.gasUsed = x.reply.gasUsed ∧
      Script.Session.outputOf x'.reply = Script.Session.outputOf x.reply ∧
      Abreast config room limit limit' (Gas.plus used x.reply.gasUsed) g g' := by
  cases hentered : f.entered? config r with
  | some found => exact h.answer_entered hroom hbelow hentered hx hx' hthrives hencodes hfits
  | none =>
    cases hcheck : r.check config.limits f.scope.own.contract with
    | ok c =>
      obtain ⟨t, ht, hnot⟩ := refused_of_entered?_none (runFrame vm config room) hr hcheck hentered
      rw [hx] at ht
      exact absurd (hthrives t ht).1 hnot
    | error e =>
      obtain ⟨hreply, hfree, habreast⟩ := h.toAbreast.answer_fault hcheck hx hx'
      rw [hreply, hfree, Gas.plus_zero]
      exact ⟨rfl, rfl, rfl, habreast⟩

end Frame

end ContractHost
