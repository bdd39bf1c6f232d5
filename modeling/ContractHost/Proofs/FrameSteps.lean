import ContractHost.Frame
import ContractHost.Proofs.RequestInputs
/-!
# What a request does to a frame

A command either settles on its own or starts a nested frame. A command of the first kind is charged, and if it succeeds
it makes a list of writes that the scope before it determines. One of the second kind ends with the record of the nested
frame, refused or run. `Frame.perform_move` says so once for all commands; a property of runs is then shown for these
four ways to go on (`Frame.play_induct`) and for the frames below (`runFrame_induct`).
-/
namespace ContractHost

variable {W : Type}

/-! ## Exchanges -/

namespace Frame

@[simp] theorem exchange_request (f : Frame W) (r : Request) (out : Except HostError Settled × Frame W) :
    (f.exchange r out).1.request = r := by
  obtain ⟨(e | v | t), after⟩ := out <;> rfl

@[simp] theorem exchange_gasUsed (f : Frame W) (r : Request) (out : Except HostError Settled × Frame W) :
    (f.exchange r out).1.reply.gasUsed = Gas.minus out.2.meter.consumed f.meter.consumed := by
  obtain ⟨(e | v | t), after⟩ := out
  · rfl
  · rfl
  · simp only [exchange, Reply.nested]
    split <;> rfl

theorem exchange_frame (f : Frame W) (r : Request) (out : Except HostError Settled × Frame W) :
    ∃ b, (f.exchange r out).2 = { out.2 with ranOut := b } := by
  obtain ⟨(e | v | t), after⟩ := out
  · exact ⟨_, rfl⟩
  · exact ⟨after.ranOut, rfl⟩
  · exact ⟨after.ranOut, rfl⟩

theorem exchange_scope (f : Frame W) (r : Request) (out : Except HostError Settled × Frame W) :
    (f.exchange r out).2.scope = out.2.scope := by
  obtain ⟨b, hb⟩ := exchange_frame f r out
  rw [hb]

theorem exchange_meter (f : Frame W) (r : Request) (out : Except HostError Settled × Frame W) :
    (f.exchange r out).2.meter = out.2.meter := by
  obtain ⟨b, hb⟩ := exchange_frame f r out
  rw [hb]

theorem exchange_children (f : Frame W) (r : Request) (out : Except HostError Settled × Frame W) :
    (f.exchange r out).2.children = out.2.children := by
  obtain ⟨b, hb⟩ := exchange_frame f r out
  rw [hb]

theorem exchange_stack (f : Frame W) (r : Request) (out : Except HostError Settled × Frame W) :
    (f.exchange r out).2.stack = out.2.stack := by
  obtain ⟨b, hb⟩ := exchange_frame f r out
  rw [hb]

theorem record_scope (f : Frame W) (t : CallRecord) : (f.record t).2.scope = f.scope := by
  simp only [record]
  split <;> rfl

theorem record_meter (f : Frame W) (t : CallRecord) : (f.record t).2.meter = (f.meter.charge t.gasUsed).2 := by
  simp only [record]
  split <;> rfl

theorem record_children (f : Frame W) (t : CallRecord) : (f.record t).2.children = f.children ++ [t] := by
  simp only [record]
  split <;> rfl

theorem record_stack (f : Frame W) (t : CallRecord) : (f.record t).2.stack = f.stack := by
  simp only [record]
  split <;> rfl

theorem record_ranOut (f : Frame W) (t : CallRecord) : (f.record t).2.ranOut = f.ranOut := by
  simp only [record]
  split <;> rfl

end Frame

variable [World W]

/-! ## Writes of operations -/

namespace Scope

def writeAll (s : Scope W) (ws : List Write) : Scope W :=
  ws.foldl write s

@[simp] theorem world_writeAll (s : Scope W) (ws : List Write) :
    (s.writeAll ws).world = ws.foldl World.write s.world := by
  induction ws generalizing s with
  | nil => rfl
  | cons x ws ih => exact ih (s.write x)

@[simp] theorem own_writeAll (s : Scope W) (ws : List Write) : (s.writeAll ws).own = s.own := by
  induction ws generalizing s with
  | nil => rfl
  | cons x ws ih => exact ih (s.write x)

/-- Scopes with the same facts and the same prices. A call tree has one store and one schedule. -/
structure Kin (s t : Scope W) : Prop where
  store : t.store = s.store
  schedule : t.schedule = s.schedule

theorem kin_writeAll (s : Scope W) (ws : List Write) : s.Kin (s.writeAll ws) := by
  induction ws generalizing s with
  | nil => exact ⟨rfl, rfl⟩
  | cons x ws ih => exact ⟨(ih (s.write x)).store, (ih (s.write x)).schedule⟩

/-- The writes that move an amount from one address to another. -/
def transfer (s : Scope W) (payer payee : Address) (amount : Nat) : List Write :=
  let paid := Write.setBalance payer (s.balance payer - amount)
  [paid, .setBalance payee ((s.write paid).balance payee + amount)]

theorem rest_ok {s : Scope W} {a : Address} {amount : Nat} {rest : Amount} (h : s.rest a amount = .ok rest) :
    amount ≤ s.balance a ∧ rest = s.balance a - amount := by
  simp only [Scope.rest, Amount.minus?] at h
  by_cases hlt : s.balance a < amount
  · simp [hlt] at h
  · simp only [hlt, if_false, Except.ok.injEq] at h
    exact ⟨Nat.le_of_not_lt hlt, h.symm⟩

theorem take_ok {s t : Scope W} {a : Address} {amount : Nat} (h : s.take a amount = .ok t) :
    amount ≤ s.balance a ∧ t = s.write (.setBalance a (s.balance a - amount)) := by
  obtain ⟨rest, hrest, h⟩ := bind_ok h
  obtain ⟨hle, rfl⟩ := rest_ok hrest
  cases h
  exact ⟨hle, rfl⟩

theorem receive_ok {s t : Scope W} {sender : Address} {amount : Nat} (h : s.receive sender amount = .ok t) :
    amount = 0 ∧ t = s ∨
      amount ≠ 0 ∧ amount ≤ s.balance sender ∧
        t = { s.writeAll (s.transfer sender s.own.contract amount) with own := { s.own with paid := amount } } := by
  by_cases h0 : amount = 0
  · simp only [receive, h0, if_true, Except.ok.injEq] at h
    exact .inl ⟨h0, h.symm⟩
  · simp only [receive, h0, if_false] at h
    obtain ⟨u, hu, h⟩ := bind_ok h
    obtain ⟨hle, rfl⟩ := take_ok hu
    cases h
    exact .inr ⟨h0, hle, rfl⟩

theorem receive_contract {s t : Scope W} {sender : Address} {amount : Nat} (h : s.receive sender amount = .ok t) :
    t.own.contract = s.own.contract := by
  rcases receive_ok h with ⟨_, rfl⟩ | ⟨_, _, rfl⟩ <;> rfl

theorem checkFunds_ok {s : Scope W} {amount : Nat} {u : Unit} (h : s.checkFunds amount = .ok u) :
    amount ≤ s.ownBalance := by
  obtain ⟨rest, hrest, -⟩ := bind_ok h
  exact (rest_ok hrest).1

theorem receive_caller {s t : Scope W} {sender : Address} {amount : Nat} (h : s.receive sender amount = .ok t) :
    t.own.caller = s.own.caller := by
  rcases receive_ok h with ⟨_, rfl⟩ | ⟨_, _, rfl⟩ <;> rfl

theorem receive_code {s t : Scope W} {sender : Address} {amount : Nat} (h : s.receive sender amount = .ok t) :
    t.own.code = s.own.code := by
  rcases receive_ok h with ⟨_, rfl⟩ | ⟨_, _, rfl⟩ <;> rfl

theorem receive_kin {s t : Scope W} {sender : Address} {amount : Nat} (h : s.receive sender amount = .ok t) :
    s.Kin t := by
  rcases receive_ok h with ⟨_, rfl⟩ | ⟨_, _, rfl⟩
  · exact ⟨rfl, rfl⟩
  · obtain ⟨hstore, hschedule⟩ := s.kin_writeAll (s.transfer sender s.own.contract amount)
    exact ⟨hstore, hschedule⟩

theorem rest_of_le {s : Scope W} {a : Address} {amount : Nat} (h : amount ≤ s.balance a) :
    s.rest a amount = .ok (s.balance a - amount) := by
  simp only [rest, Amount.minus?, if_neg (Nat.not_lt_of_le h)]

theorem checkFunds_of_le {s : Scope W} {amount : Nat} (h : amount ≤ s.ownBalance) : s.checkFunds amount = .ok () := by
  rw [checkFunds, rest_of_le h]
  rfl

theorem take_of_le {s : Scope W} {a : Address} {amount : Nat} (h : amount ≤ s.balance a) :
    s.take a amount = .ok (s.write (.setBalance a (s.balance a - amount))) := by
  rw [take, rest_of_le h]
  rfl

theorem forCall_of_le {s : Scope W} (target : Address) (code : Bytes) {amount : Nat} (h : amount ≤ s.ownBalance) :
    ∃ t, s.forCall target code amount = .ok t := by
  have hseen : (s.child target code amount).balance s.own.contract = s.ownBalance :=
    World.balance_child s.world s.own.contract
  rw [← hseen] at h
  by_cases h0 : amount = 0
  · exact ⟨s.child target code amount, by rw [forCall, receive, if_pos h0]⟩
  · rw [forCall, receive, if_neg h0, take_of_le h]
    exact ⟨_, rfl⟩

theorem forCall_funds {s t : Scope W} {target : Address} {code : Bytes} {amount : Nat}
    (h : s.forCall target code amount = .ok t) : amount ≤ s.ownBalance := by
  rcases receive_ok h with ⟨rfl, -⟩ | ⟨-, hle, -⟩
  · exact Nat.zero_le _
  · exact Nat.le_trans hle (Nat.le_of_eq (World.balance_child s.world s.own.contract))

theorem forDeploy_of_le {s : Scope W} (target : Address) (code : Bytes) {amount : Nat} (h : amount ≤ s.ownBalance) :
    ∃ t, s.forDeploy target code amount = .ok t := by
  obtain ⟨t, ht⟩ := forCall_of_le target code h
  refine ⟨t.installCode code, ?_⟩
  rw [forDeploy, ht]
  rfl

theorem forDeploy_ok {s t : Scope W} {target : Address} {code : Bytes} {amount : Nat}
    (h : s.forDeploy target code amount = .ok t) :
    ∃ u, s.forCall target code amount = .ok u ∧ t = u.write (.setCode target code) := by
  obtain ⟨u, hu, h⟩ := bind_ok h
  cases h
  have hcontract : u.own.contract = target := receive_contract hu
  refine ⟨u, hu, ?_⟩
  rw [installCode, hcontract]

end Scope

namespace Command

/-- The frame that a command asks for. -/
structure Nesting where
  target : Address
  invocation : Invocation
  amount : Amount
  gas : Gas

/-- The frame that a command asks for, if it asks for one. -/
def nesting : Command → Option Nesting
  | .call c => some { target := c.target, invocation := .call c.method c.args c.context, amount := c.amount, gas := c.gas }
  | .deploy d => some { target := d.address, invocation := .deploy d.args d.nonce, amount := d.amount, gas := d.gas }
  | _ => none

/-- What the frame's contract has to own for a command. -/
def spends : Command → Amount
  | .send _ amount | .debit amount | .burn amount => amount
  | _ => 0

/-- What a command without a nested frame writes if it succeeds. -/
def writes (s : Scope W) : Command → List Write
  | .setStorage key value => [.setStorage s.own.contract key value]
  | .removeStorage key => [.removeStorage s.own.contract key]
  | .send payee amount => s.transfer s.own.contract payee amount
  | .debit amount => [.setBalance s.own.contract (s.ownBalance - amount)]
  | .credit payee amount => [.setBalance payee (s.balance payee + amount)]
  | .burn amount => [.setBalance s.own.contract (s.ownBalance - amount), .addBurnt amount]
  | .event name args => [.pushEvent { contract := s.own.contract, name, args }]
  | _ => []

def meterAfter (s : Scope W) (m : Meter) : Command → Meter
  | .setRemainingGas remaining => m.setRemaining remaining
  | .setStorage key _ => (m.charge (s.schedule.write key.length)).2
  | .removeStorage key => (m.charge (s.schedule.remove key.length)).2
  | .readStorage contract key => (m.charge (s.schedule.read ((s.storage contract key).getD []).length)).2
  | .send _ _ => (m.charge s.schedule.transfer).2
  | .event name args =>
    (m.charge (s.schedule.event ({ contract := s.own.contract, name, args : Event }).size)).2
  | _ => m

end Command

/-! ## Commands -/

theorem Meter.spend_snd {α : Type} (m : Meter) (price : UInt64) (r : Except HostError α) :
    (m.spend price r).2 = (m.charge price).2 := by
  unfold spend
  split <;> simp_all

theorem Meter.spend_ok {α : Type} {m : Meter} {price : UInt64} {r : Except HostError α} {a : α}
    (h : (m.spend price r).1 = .ok a) : r = .ok a := by
  unfold spend at h
  split at h
  · exact h
  · cases h

namespace Frame

/-- The scopes in which the frame of a command may be run. -/
inductive Entry (f : Frame W) : Command → Scope W → Prop
  | call (c : Call) (b : UInt8) (code : Bytes) (s : Scope W)
      (hcode : f.scope.code c.target = some (b :: code)) (hmethod : c.method ≠ constructorName)
      (hstack : f.stack.checkEnter c.target = .ok ()) (hs : f.scope.forCall c.target (b :: code) c.amount = .ok s) :
      Entry f (.call c) s
  | deploy (d : Deployment) (s : Scope W) (hcode : f.scope.code d.address = none)
      (hstack : f.stack.checkEnter d.address = .ok ()) (hs : f.scope.forDeploy d.address d.code d.amount = .ok s) :
      Entry f (.deploy d) s

/-- The frame after a nested one has ended, before that one is recorded. -/
def resume (f : Frame W) (outcome : FrameOutcome W) : Frame W :=
  { f with
    scope := if outcome.record.success then f.scope.join outcome.world else f.scope
    stack := outcome.stack }

/-- The frame after a command without a nested frame that has failed. -/
def charged (f : Frame W) (c : Command) : Frame W :=
  { f with meter := c.meterAfter f.scope f.meter }

/-- The frame after a command without a nested frame that has succeeded. -/
def written (f : Frame W) (c : Command) : Frame W :=
  { f.charged c with scope := f.scope.writeAll (c.writes f.scope) }

/-- What a command comes to. -/
inductive Move (config : Config) (run : Runner W) (f : Frame W) (c : Command) :
    Except HostError Settled × Frame W → Prop
  | done (v : Value) (hc : c.nesting = none) (hfunds : c.spends ≤ f.scope.ownBalance) :
      Move config run f c (.ok (.value v), f.written c)
  | failed (e : HostError) (hc : c.nesting = none) :
      Move config run f c (.error e, f.charged c)
  | refused (n : Command.Nesting) (why : Refusal) (hc : c.nesting = some n) :
      Move config run f c (f.record (CallRecord.refused config.maxArgsLength.toNat
        (n.invocation.action n.amount (Gas.least n.gas f.meter.remaining)) why))
  | ran (n : Command.Nesting) (s : Scope W) (hc : c.nesting = some n) (hs : f.Entry c s) :
      Move config run f c (
        let outcome := run s f.stack n.invocation n.amount (Gas.least n.gas f.meter.remaining)
        (f.resume outcome).record outcome.record)

variable {config : Config} {run : Runner W} {f : Frame W}

private theorem move_moveTo {c : Command} (hc : c.nesting = none) {r : Except HostError (Scope W) × Meter}
    (hm : r.2 = c.meterAfter f.scope f.meter)
    (hr : ∀ s, r.1 = .ok s → c.spends ≤ f.scope.ownBalance ∧ s = f.scope.writeAll (c.writes f.scope)) :
    f.Move config run c (f.moveTo r) := by
  obtain ⟨r, m⟩ := r
  simp only at hm hr
  subst hm
  cases r with
  | error e => exact .failed e hc
  | ok s =>
    obtain ⟨hfunds, rfl⟩ := hr s rfl
    exact .done .nothing hc hfunds

private theorem move_give {c : Command} (v : Value) (hc : c.nesting = none) (hfunds : c.spends = 0)
    (hw : c.writes f.scope = []) (hm : c.meterAfter f.scope f.meter = f.meter) :
    f.Move config run c (f.give v) := by
  have h : f.Move config run c _ := .done v hc (hfunds ▸ Nat.zero_le _)
  rw [written, charged, hw, hm] at h
  exact h

private theorem move_giveFound {c : Command} (found : Except HostError Value) (hc : c.nesting = none)
    (hfunds : c.spends = 0) (hw : c.writes f.scope = []) {m : Meter} (hm : m = c.meterAfter f.scope f.meter) :
    f.Move config run c (giveFound { f with meter := m } found) := by
  subst hm
  cases found with
  | error e => exact .failed e hc
  | ok v =>
    have h : f.Move config run c _ := .done v hc (hfunds ▸ Nat.zero_le _)
    rw [written, hw] at h
    exact h

theorem precheck_ok {target : Address} {amount : Nat} {u : Unit} (h : f.precheck target amount = .ok u) :
    f.stack.checkEnter target = .ok () ∧ amount ≤ f.scope.ownBalance := by
  obtain ⟨v, hstack, hfunds⟩ := bind_ok h
  exact ⟨hstack, Scope.checkFunds_ok hfunds⟩

theorem callScope_ok {call : Call} {made : Except HostError (Scope W)} (h : f.callScope call = .ok made) :
    ∃ s, made = .ok s ∧ f.Entry (.call call) s := by
  simp only [callScope] at h
  split at h
  · cases h
  · cases h
  · rename_i b code hcode
    split at h
    · cases h
    · rename_i hmethod
      obtain ⟨u, hcheck, h⟩ := bind_ok h
      obtain ⟨hstack, hfunds⟩ := precheck_ok (mapError_ok hcheck)
      obtain ⟨s, hs⟩ := Scope.forCall_of_le call.target (b :: code) hfunds
      cases h
      exact ⟨s, hs, .call call b code s hcode hmethod hstack hs⟩

theorem deploymentScope_ok {d : Deployment} {made : Except HostError (Scope W)} (h : f.deploymentScope d = .ok made) :
    ∃ s, made = .ok s ∧ f.Entry (.deploy d) s := by
  simp only [deploymentScope] at h
  split at h
  · cases h
  · rename_i hcode
    obtain ⟨u, hcheck, h⟩ := bind_ok h
    obtain ⟨hstack, hfunds⟩ := precheck_ok (mapError_ok hcheck)
    obtain ⟨s, hs⟩ := Scope.forDeploy_of_le d.address d.code hfunds
    cases h
    exact ⟨s, hs, .deploy d s hcode hstack hs⟩

/-- The scope of the frame that a command asks for, or why this frame is refused. What asks for no frame has no scope. -/
def opening (f : Frame W) : Command → Except Refusal (Except HostError (Scope W))
  | .call call => f.callScope call
  | .deploy d => f.deploymentScope d
  | _ => .error .noCode

theorem opening_ok {c : Command} {made : Except HostError (Scope W)} (h : f.opening c = .ok made) :
    ∃ s, made = .ok s ∧ f.Entry c s := by
  cases c with
  | call call => exact callScope_ok h
  | deploy d => exact deploymentScope_ok h
  | _ => cases h

theorem opening_entry {c : Command} {s : Scope W} (h : f.opening c = .ok (.ok s)) : f.Entry c s := by
  obtain ⟨t, ht, hs⟩ := opening_ok h
  cases ht
  exact hs

theorem perform_of_nesting_none (config : Config) (run run' : Runner W) (f : Frame W) {c : Command}
    (hc : c.nesting = none) : f.perform config run c = f.perform config run' c := by
  cases c with
  | call | deploy => cases hc
  | _ => rfl

/-- A frame is refused or its scope can be made. -/
theorem opening_cases (f : Frame W) (c : Command) :
    (∃ why, f.opening c = .error why) ∨ ∃ s, f.opening c = .ok (.ok s) := by
  cases h : f.opening c with
  | error why => exact .inl ⟨why, rfl⟩
  | ok made =>
    obtain ⟨s, rfl, -⟩ := opening_ok h
    exact .inr ⟨s, rfl⟩

theorem perform_nest (config : Config) (run : Runner W) (f : Frame W) {c : Command} {n : Command.Nesting}
    (hn : c.nesting = some n) :
    f.perform config run c = f.nest config run (f.opening c) n.invocation n.amount n.gas := by
  cases c with
  | call | deploy =>
    cases hn
    rfl
  | _ => cases hn

theorem perform_refused (config : Config) (run : Runner W) {c : Command} {n : Command.Nesting} (hn : c.nesting = some n)
    {why : Refusal} (h : f.opening c = .error why) :
    f.perform config run c = f.record (CallRecord.refused config.maxArgsLength.toNat
      (n.invocation.action n.amount (Gas.least n.gas f.meter.remaining)) why) := by
  rw [perform_nest config run f hn, h, nest]

theorem perform_ran (config : Config) (run : Runner W) {c : Command} {n : Command.Nesting} (hn : c.nesting = some n)
    {s : Scope W} (h : f.opening c = .ok (.ok s)) :
    f.perform config run c =
      let outcome := run s f.stack n.invocation n.amount (Gas.least n.gas f.meter.remaining)
      (f.resume outcome).record outcome.record := by
  rw [perform_nest config run f hn, h]
  rfl

private theorem move_nesting {c : Command} {n : Command.Nesting} (hn : c.nesting = some n) :
    f.Move config run c (f.perform config run c) := by
  rcases f.opening_cases c with ⟨why, h⟩ | ⟨s, h⟩
  · rw [perform_refused config run hn h]
    exact .refused n why hn
  · rw [perform_ran config run hn h]
    exact .ran n s hn (opening_entry h)

/-- Every command comes to one of the four moves. -/
theorem perform_move (config : Config) (run : Runner W) (f : Frame W) (c : Command) :
    f.Move config run c (f.perform config run c) := by
  cases c with
  | setRemainingGas remaining => exact Move.done (c := .setRemainingGas remaining) .nothing rfl (Nat.zero_le _)
  | fact x => exact move_give (c := .fact x) (f.fact x) rfl rfl rfl rfl
  | setStorage key value =>
    apply move_moveTo (c := .setStorage key value) rfl (Meter.spend_snd _ _ _)
    intro s hs
    exact ⟨Nat.zero_le _, (Except.ok.inj (Meter.spend_ok hs)).symm⟩
  | readStorage contract key =>
    exact move_giveFound (c := .readStorage contract key) _ rfl rfl rfl (Meter.spend_snd _ _ _)
  | removeStorage key =>
    apply move_moveTo (c := .removeStorage key) rfl (Meter.spend_snd _ _ _)
    intro s hs
    exact ⟨Nat.zero_le _, (Except.ok.inj (Meter.spend_ok hs)).symm⟩
  | balance a => exact move_give (c := .balance a) _ rfl rfl rfl rfl
  | send payee amount =>
    apply move_moveTo (c := .send payee amount) rfl (Meter.spend_snd _ _ _)
    intro s hs
    obtain ⟨t, ht, hsent⟩ := bind_ok (Meter.spend_ok hs)
    obtain ⟨hle, rfl⟩ := Scope.take_ok ht
    cases hsent
    exact ⟨hle, rfl⟩
  | debit amount =>
    apply move_moveTo (c := .debit amount) rfl rfl
    intro s hs
    exact Scope.take_ok hs
  | credit payee amount =>
    exact Move.done (c := .credit payee amount) .nothing rfl (Nat.zero_le _)
  | burn amount =>
    apply move_moveTo (c := .burn amount) rfl rfl
    intro s hs
    obtain ⟨t, ht, hs⟩ := bind_ok hs
    obtain ⟨hle, rfl⟩ := Scope.take_ok ht
    cases hs
    exact ⟨hle, rfl⟩
  | identityState a => exact move_giveFound (c := .identityState a) _ rfl rfl rfl rfl
  | identity a => exact move_giveFound (c := .identity a) _ rfl rfl rfl rfl
  | code a => exact move_give (c := .code a) _ rfl rfl rfl rfl
  | contractAddress code args nonce => exact move_give (c := .contractAddress code args nonce) _ rfl rfl rfl rfl
  | event name args =>
    apply move_moveTo (c := .event name args) rfl (Meter.spend_snd _ _ _)
    intro s hs
    exact ⟨Nat.zero_le _, (Except.ok.inj (Meter.spend_ok hs)).symm⟩
  | debug => exact move_give (c := .debug) _ rfl rfl rfl rfl
  | call call => exact move_nesting (c := .call call) rfl
  | deploy d => exact move_nesting (c := .deploy d) rfl

theorem perform_alone (config : Config) (run : Runner W) (f : Frame W) {c : Command} (hc : c.nesting = none) :
    let g := (f.perform config run c).2
    g.meter = c.meterAfter f.scope f.meter ∧ g.children = f.children := by
  have hmove := perform_move config run f c
  generalize f.perform config run c = out at hmove
  cases hmove with
  | done v _ _ => exact ⟨rfl, rfl⟩
  | failed e _ => exact ⟨rfl, rfl⟩
  | refused n why hn => cases hc.symm.trans hn
  | ran n s hn hs => cases hc.symm.trans hn

theorem Entry.kin {c : Command} {s : Scope W} (h : f.Entry c s) : f.scope.Kin s := by
  cases h with
  | call call b code s hcode hmethod hstack hs =>
    obtain ⟨hstore, hschedule⟩ := Scope.receive_kin (s := f.scope.child call.target (b :: code) call.amount) hs
    exact ⟨hstore, hschedule⟩
  | deploy d s hcode hstack hs =>
    obtain ⟨t, ht, rfl⟩ := Scope.forDeploy_ok hs
    obtain ⟨hstore, hschedule⟩ := Scope.receive_kin (s := f.scope.child d.address d.code d.amount) ht
    exact ⟨hstore, hschedule⟩

theorem Move.kin {c : Command} {out : Except HostError Settled × Frame W} (h : f.Move config run c out) :
    f.scope.Kin out.2.scope := by
  cases h with
  | done v hc hfunds => exact Scope.kin_writeAll f.scope _
  | failed e hc => exact ⟨rfl, rfl⟩
  | refused n why hc =>
    rw [record_scope]
    exact ⟨rfl, rfl⟩
  | ran n s hc hs =>
    simp only [record_scope, resume]
    split <;> exact ⟨rfl, rfl⟩

theorem answer_kin (config : Config) (run : Runner W) (f : Frame W) (r : Request) :
    f.scope.Kin (f.answer config run r).2.scope := by
  rw [answer, exchange_scope]
  cases r.check config.limits f.scope.own.contract with
  | error e => exact ⟨rfl, rfl⟩
  | ok c => exact (perform_move config run f c).kin

/-! ## Runs of programs -/

/-- A property of a frame and of what it has asked so far holds at the end of its program if it outlives faulty requests
and the moves of commands. -/
theorem play_induct {P : List Exchange → Frame W → Prop}
    (fault : ∀ xs f r e, P xs f → r.check config.limits f.scope.own.contract = .error e →
      P (xs ++ [(f.exchange r (.error e, f)).1]) (f.exchange r (.error e, f)).2)
    (move : ∀ xs f r c out, P xs f → r.check config.limits f.scope.own.contract = .ok c →
      f.Move config run c out → P (xs ++ [(f.exchange r out).1]) (f.exchange r out).2)
    {α : Type} (p : Program α) (xs : List Exchange) (f : Frame W) (h : P xs f) :
    P (xs ++ (play config run p f).1) (play config run p f).2.2 := by
  induction p generalizing xs f with
  | done a => simpa [play] using h
  | crash reason => simpa [play] using h
  | ask r next ih =>
    have hstep : P (xs ++ [(f.answer config run r).1]) (f.answer config run r).2 := by
      unfold answer
      cases hr : r.check config.limits f.scope.own.contract with
      | error e => exact fault xs f r e h hr
      | ok c => exact move xs f r c _ h hr (perform_move config run f c)
    have hrest := ih (f.answer config run r).1.reply _ _ hstep
    simpa [play] using hrest

end Frame

/-! ## Frames below frames -/

/-- A property of frames holds of all of them if it holds of those that the stack refuses, and of one that is entered
whenever it holds of the frames below. -/
theorem runFrame_induct {vm : Vm} {config : Config}
    {P : Scope W → CallStack → Invocation → Amount → Gas → FrameOutcome W → Prop}
    (refused : ∀ s stack i amount gas e,
      P s stack i amount gas (.refused config s stack (i.action amount gas) e))
    (entered : ∀ run : Runner W, (∀ s stack i amount gas, P s stack i amount gas (run s stack i amount gas)) →
      ∀ s stack i amount gas stack', stack.enter s.own.contract s.own.caller amount = .ok stack' →
        P s stack i amount gas (runEntered vm config run stack' s stack i amount gas))
    (room : Nat) (s : Scope W) (stack : CallStack) (i : Invocation) (amount : Amount) (gas : Gas) :
    P s stack i amount gas (runFrame vm config room s stack i amount gas) := by
  induction room generalizing s stack i amount gas with
  | zero => exact refused s stack i amount gas _
  | succ room ih =>
    unfold runFrame
    cases h : stack.enter s.own.contract s.own.caller amount with
    | error e => exact refused s stack i amount gas e
    | ok stack' => exact entered _ ih s stack i amount gas stack' h

/-- A frame that ran did so in its scope and for its invocation. -/
theorem runFrame_passage {vm : Vm} {config : Config} {room : Nat} {s : Scope W} {stack : CallStack} {i : Invocation}
    {amount : Amount} {gas : Gas} {p : Passage}
    (hp : (runFrame vm config room s stack i amount gas).record.label.passage = some p) :
    p.contract = s.own.contract ∧ p.caller = s.own.caller ∧ p.invocation = i ∧ p.code = s.own.code := by
  revert hp
  refine runFrame_induct (P := fun s _ i _ _ outcome => outcome.record.label.passage = some p →
    p.contract = s.own.contract ∧ p.caller = s.own.caller ∧ p.invocation = i ∧ p.code = s.own.code)
    ?_ ?_ room s stack i amount gas
  · intro s stack i amount gas e hp
    cases hp
  · intro run _ s stack i amount gas entered _ hp
    cases hp
    exact ⟨rfl, rfl, rfl, rfl⟩

end ContractHost
