import Mathlib.Logic.Relation
import ContractHost.Proofs.Amounts
import ContractHost.Proofs.CodeOrigins
import ContractHost.Proofs.Nesting
/-!
# Calling what was deployed

Whatever was deployed with code is found when it is called, at once and by all later orders. But a contract may deploy no
bytes at all, which an account may not. At that address nothing can be called, and nothing can be deployed any more.
-/
namespace ContractHost

open Ledger (Keeps)

/-! ## Later frames -/

/-- How the frames of a call tree follow each other: one goes on after an answer, or one is entered below it. With each
stands the room below it. -/
inductive Host.Next {W : Type} [World W] (h : Host) : Nat × Frame W → Nat × Frame W → Prop
  | answer (room : Nat) (f : Frame W) (r : Request) :
      Next h (room, f) (room, (f.answer h.config (runFrame h.vm h.config room) r).2)
  | nested (room : Nat) (f : Frame W) (r : Request) (c : Command) (n : Command.Nesting) (s : Scope W)
      (stack : CallStack) (hcheck : r.check h.config.limits f.scope.own.contract = .ok c) (hc : c.nesting = some n)
      (hs : f.Entry c s) (henter : f.stack.enter s.own.contract s.own.caller n.amount = .ok stack) :
      Next h (room + 1, f) (room, .start s stack (Gas.least n.gas f.meter.remaining))

/-- The frames that may occur from a frame on until it ends, below it as well. -/
abbrev Host.Later {W : Type} [World W] (h : Host) : Nat × Frame W → Nat × Frame W → Prop :=
  Relation.ReflTransGen h.Next

theorem Frame.Entry.flat {f : Frame Layers} {c : Command} {s : Scope Layers} (hs : f.Entry c s) :
    f.flat.Entry c s.flat := by
  cases hs with
  | call call b code s hcode hmethod hstack hs =>
    refine .call call b code s.flat ((f.scope.flat_code call.target).trans hcode) hmethod hstack ?_
    exact (f.scope.flat_forCall _ _ _).trans (congrArg (Except.map Scope.flat) hs)
  | deploy d s hcode hstack hs =>
    refine .deploy d s.flat ((f.scope.flat_code d.address).trans hcode) hstack ?_
    exact (f.scope.flat_forDeploy _ _ _).trans (congrArg (Except.map Scope.flat) hs)

namespace Host

variable {h : Host}

theorem Reachable.later {W : Type} [World W] {store : Store} {world : W} {room : Nat} {f : Frame W}
    (hf : h.Reachable store world room f) :
    ∃ (order : Order) (s : Scope W) (stack : CallStack) (room' : Nat),
      order.scope h.config store world = .ok s ∧ h.Later (room', .start s stack order.gasLimit) (room, f) := by
  induction hf with
  | outermost order s stack room hcheck hscope henter hroom => exact ⟨order, s, stack, room, hscope, .refl⟩
  | answer room f r hf ih =>
    obtain ⟨order, s, stack, room', hscope, hlater⟩ := ih
    exact ⟨order, s, stack, room', hscope, hlater.tail (.answer room f r)⟩
  | nested room f r c n s stack hf hcheck hc hs henter ih =>
    obtain ⟨order, s', stack', room', hscope, hlater⟩ := ih
    exact ⟨order, s', stack', room', hscope, hlater.tail (.nested room f r c n s stack hcheck hc hs henter)⟩

theorem Next.flat {p q : Nat × Frame Layers} (hnext : h.Next p q) :
    h.Next (Prod.map id Frame.flat p) (Prod.map id Frame.flat q) := by
  cases hnext with
  | answer room f r =>
    have hrun : Simulates (runFrame h.vm h.config room) (runFrame h.vm h.config room) :=
      ⟨flat_runFrame h.vm h.config room, runFrame_above h.vm h.config room⟩
    have hanswer := congrArg Prod.snd (f.flat_answer h.config hrun r)
    have hstep := Next.answer (h := h) room f.flat r
    rw [hanswer] at hstep
    exact hstep
  | nested room f r c n s stack hcheck hc hs henter =>
    exact .nested room f.flat r c n s.flat stack hcheck hc hs.flat henter

theorem Later.flat {p q : Nat × Frame Layers} (hlater : h.Later p q) :
    h.Later (Prod.map id Frame.flat p) (Prod.map id Frame.flat q) :=
  hlater.lift _ fun _ _ hnext => hnext.flat

theorem Next.keeps {p q : Nat × Frame Ledger} (hnext : h.Next p q) : p.2.scope.world.Keeps q.2.scope.world := by
  cases hnext with
  | answer room f r =>
    show f.scope.world.Keeps (f.answer h.config (runFrame h.vm h.config room) r).2.scope.world
    rw [Frame.answer, Frame.exchange_scope]
    cases hcheck : r.check h.config.limits f.scope.own.contract with
    | error e => exact .refl _
    | ok c =>
      exact (ledgerRule_keeps h.config).move ((ledgerRule_keeps h.config).runFrame h.vm room) hcheck
        (Frame.perform_move h.config _ f c)
  | nested room f r c n s stack hcheck hc hs henter => exact (ledgerRule_keeps h.config).entry f r c s hcheck hs

theorem Later.keeps {p q : Nat × Frame Ledger} (hlater : h.Later p q) : p.2.scope.world.Keeps q.2.scope.world := by
  induction hlater with
  | refl => exact .refl _
  | tail hbefore hnext ih => exact ih.trans hnext.keeps

theorem Later.deploying {p q : Nat × Frame Ledger} (hlater : h.Later p q) (hp : ∃ s, p.2.Deploying s) :
    ∃ s, q.2.Deploying s := by
  induction hlater with
  | refl => exact hp
  | tail hbefore hnext ih =>
    cases hnext with
    | answer room f r =>
      obtain ⟨s, hs⟩ := ih
      have hrun := runFrame_deploys h.vm h.config room
      exact ⟨s, hs.answer ((ledgerRule_keeps h.config).runFrame h.vm room) hrun r⟩
    | nested room f r c n s stack hcheck hc hs henter => exact ⟨s, Frame.deploying_start s stack _⟩

theorem Reachable.code {store : Store} {room : Nat} {f : Frame Layers}
    (hf : h.Reachable store (Layers.ofLedger store.ledger) room f) {a : Address} {code : Bytes}
    (hcode : store.ledger.code a = some code) : f.scope.code a = some code := by
  -- In place the world of the frame is a later ledger, and no ledger loses code.
  obtain ⟨order, s, stack, room', hscope, hlater⟩ := hf.later
  have hflat : order.scope h.config store store.ledger = .ok s.flat := by
    rw [Order.scope_flat, hscope]
    rfl
  have hkeeps : store.ledger.Keeps f.scope.flat.world := (Order.scope_ok hflat).keeps.trans hlater.flat.keeps
  rw [← Scope.flat_code]
  exact hkeeps.code hcode

theorem Reachable.code_deployed {store : Store} {room room' : Nat} {f g : Frame Layers}
    (hf : h.Reachable store (Layers.ofLedger store.ledger) room f) {t : CallRecord} (ht : t ∈ f.children) {p : Passage}
    (hp : p ∈ t.installed) (hlater : h.Later (room, f) (room', g)) : g.scope.code p.contract = some p.code := by
  -- The frame saw the code when the deployment was kept, and what comes later keeps it.
  obtain ⟨order, s, stack, room₀, -, hbefore⟩ := hf.later
  obtain ⟨s', hdeploying⟩ := hbefore.flat.deploying ⟨s.flat, Frame.deploying_start s.flat stack order.gasLimit⟩
  have hseen : f.scope.flat.world.code p.contract = some p.code := hdeploying.seen t ht p hp
  rw [← Scope.flat_code]
  exact hlater.flat.keeps.code hseen

end Host

/-! ## Calls -/

/-- No call of an address is refused for want of code. -/
def Frame.FindsCode {W : Type} [World W] (f : Frame W) (a : Address) : Prop :=
  ∀ call, call.target = a → f.callScope call ≠ .error .noCode

theorem Frame.findsCode {W : Type} [World W] {f : Frame W} {a : Address} {code : Bytes} (hcode : f.scope.code a = some code)
    (hne : code ≠ []) : f.FindsCode a := by
  obtain ⟨b, code, rfl⟩ := List.exists_cons_of_ne_nil hne
  rintro call rfl hrefused
  simp only [callScope, hcode] at hrefused
  split at hrefused
  · cases hrefused
  · cases hcheck : f.precheck call.target call.amount with
    | error e =>
      rw [hcheck] at hrefused
      cases hrefused
    | ok u =>
      rw [hcheck] at hrefused
      cases hrefused

/-- A contract that is found by every order to execute it, unless that order says to run no code, and by every frame of
every order. -/
structure Store.Callable (store : Store) (a : Address) : Prop where
  ordered : ∀ (config : Config) (o : ExecuteOrder), o.contract = a → o.code ≠ some [] →
    o.scope config store (Layers.ofLedger store.ledger) ≠ .error .noCode
  nested : ∀ (h : Host) (room : Nat) (f : Frame Layers),
    h.Reachable store (Layers.ofLedger store.ledger) room f → f.FindsCode a

theorem Store.callable {store : Store} {a : Address} {code : Bytes} (hcode : store.ledger.code a = some code)
    (hne : code ≠ []) : store.Callable a := by
  refine ⟨?_, fun h room f hf => Frame.findsCode (hf.code hcode) hne⟩
  rintro config o rfl hown hrefused
  obtain ⟨b, code', hcode'⟩ : ∃ b code', o.code.or (store.ledger.code o.contract) = some (b :: code') := by
    rw [hcode]
    cases hcase : o.code with
    | none =>
      obtain ⟨b, code', rfl⟩ := List.exists_cons_of_ne_nil hne
      exact ⟨b, code', rfl⟩
    | some own =>
      rw [hcase] at hown
      obtain ⟨b, code', rfl⟩ := List.exists_cons_of_ne_nil fun h => hown (congrArg some h)
      exact ⟨b, code', rfl⟩
  simp only [ExecuteOrder.scope, hcode'] at hrefused
  split at hrefused
  · cases hrefused
  · cases hcheck : (Scope.start (Layers.ofLedger store.ledger) store config.gas o.contract o.caller
        (b :: code')).receive o.caller o.amount with
    | error e =>
      rw [hcheck] at hrefused
      cases hrefused
    | ok s =>
      rw [hcheck] at hrefused
      cases hrefused

/-! ## The inputs of deployments -/

namespace Input

theorem requireBytes_some (what : String) (bound : UInt64) (b : Bytes) :
    requireBytes what bound (some b) = (InputLimits.check what b bound).map fun _ => b := by
  show (InputLimits.check what b bound >>= fun _ => pure b) = _
  cases InputLimits.check what b bound <;> rfl

theorem bytes_some (what : String) (bound : UInt64) (b : Bytes) :
    bytes what bound (some b) = (InputLimits.check what b bound).map fun _ => b := by
  show (InputLimits.check what b bound >>= fun _ => pure b) = _
  cases InputLimits.check what b bound <;> rfl

theorem amount_toBytes {a : Amount} (ha : a.Fits) (limits : InputLimits) :
    amount limits (some (Amount.toBytes a)) =
      (InputLimits.check "amount" (Amount.toBytes a) limits.amount).map fun _ => a := by
  rw [amount, bytes_some]
  cases InputLimits.check "amount" (Amount.toBytes a) limits.amount with
  | error e => rfl
  | ok u =>
    show (Amount.ofBytes (Amount.toBytes a)).mapError HostError.malformed = .ok a
    rw [Amount.ofBytes_toBytes ha]
    rfl

end Input

namespace DeployOrder

variable {o : DeployOrder}

def deployment (o : DeployOrder) : Deployment :=
  { code := o.code, args := Arguments.pack o.args, nonce := o.nonce, amount := o.amount, gas := o.gasLimit }

def request (o : DeployOrder) : Request :=
  .deploy (some o.code) (some (Arguments.pack o.args)) (some o.nonce) (some (Amount.toBytes o.amount)) o.gasLimit

theorem code_ne_nil {limits : InputLimits} (h : o.check limits = .ok ()) : o.code ≠ [] := by
  intro hnil
  rw [check, if_pos hnil] at h
  cases h

/-- A nested deployment is refused for its inputs where an order with the same ones is, if there is code. -/
theorem check_request (hcode : o.code ≠ []) (hamount : o.amount.Fits) (limits : InputLimits) (self : Address) :
    o.request.check limits self = (o.check limits).map fun _ => .deploy o.deployment := by
  simp only [request, Request.check, Input.requireBytes_some, Input.bytes_some, Input.amount_toBytes hamount, check,
    if_neg hcode]
  cases InputLimits.check "code" o.code limits.code with
  | error e => rfl
  | ok _ =>
    cases InputLimits.check "arguments" (Arguments.pack o.args) limits.args with
    | error e => rfl
    | ok _ =>
      cases InputLimits.check "nonce" o.nonce limits.text with
      | error e => rfl
      | ok _ => cases InputLimits.check "amount" (Amount.toBytes o.amount) limits.amount <;> rfl

end DeployOrder

theorem Host.carryOut_outermost_code (h : Host) (store : Store) (order : Order) {t : CallRecord}
    (ht : (h.carryOut store order).record = some t) {p : Passage} (hp : t.label.deployment? = some p) : p.code ≠ [] := by
  obtain ⟨hcheck, ⟨why, rfl⟩ | ⟨s, hs, rfl⟩⟩ := carryOut_record ht
  · cases hp
  · obtain ⟨hpassage, hdeployment⟩ := FrameRecord.deployment?_eq_some.mp hp
    obtain ⟨-, -, hinvocation, hcode⟩ := runFrame_passage hpassage
    rw [hinvocation] at hdeployment
    rw [hcode]
    cases hs with
    | execute o b code s hcode hmethod hs => cases hdeployment
    | deploy o s hcode hs =>
      have hown : s.own.code = o.code := Scope.receive_code hs
      show s.own.code ≠ []
      rw [hown]
      exact DeployOrder.code_ne_nil hcheck

/-! ## Histories -/

theorem Store.completions_outermost_code (store : Store) (agenda : List (Host × Order)) :
    ∀ c ∈ store.completions agenda, ∀ t, c.record = some t → ∀ p, t.label.deployment? = some p → p.code ≠ [] := by
  intro c hc t ht p hp
  obtain ⟨h, order, later, -, rfl⟩ := exists_of_mem_completions hc
  exact h.carryOut_outermost_code later order ht hp

/-- Whatever hosts carry out on a store without empty codes: the only empty codes are those of deployments of no bytes,
which contracts can ask for and accounts cannot. All other deployments can be called, by the later orders if they have
reached the ledger, and by the frames around them as soon as they are kept. For code that is not empty, contracts and
accounts are refused for the same inputs. -/
theorem Store.deployments_callable (store : Store) (agenda : List (Host × Order))
    (hstore : ∀ a, store.ledger.code a ≠ some []) :
    (∀ a, (store.after agenda).ledger.code a = some [] ↔
      ∃ p ∈ store.installed agenda, p.contract = a ∧ p.code = []) ∧
    (∀ c ∈ store.completions agenda, ∀ t, c.record = some t → ∀ p, t.label.deployment? = some p → p.code ≠ []) ∧
    (∀ p ∈ store.installed agenda, p.code ≠ [] → (store.after agenda).Callable p.contract) ∧
    (∀ (h : Host) (room : Nat) (f : Frame Layers),
      h.Reachable (store.after agenda) (Layers.ofLedger (store.after agenda).ledger) room f →
      ∀ t ∈ f.children, ∀ p ∈ t.installed, p.code ≠ [] →
      ∀ room' g, h.Later (room, f) (room', g) → g.FindsCode p.contract) ∧
    ∀ (limits : InputLimits) (self : Address) (o : DeployOrder), o.code ≠ [] → o.amount.Fits →
      o.request.check limits self = (o.check limits).map fun _ => .deploy o.deployment := by
  refine ⟨?_, store.completions_outermost_code agenda, ?_, ?_, ?_⟩
  · intro a
    rw [code_after_iff]
    exact or_iff_right (hstore a)
  · exact fun p hp hne => callable (installed_seen hp) hne
  · exact fun h room f hf t ht p hp hne room' g hlater => Frame.findsCode (hf.code_deployed ht hp hlater) hne
  · exact fun limits self o hne hamount => DeployOrder.check_request hne hamount limits self

def DeployOrder.byte : DeployOrder :=
  { caller := .zero, code := [1], gasLimit := 1000 }

/-- A byte of code that an account deploys can be called. -/
theorem Store.byte_callable :
    (∀ a, ({} : Ledger).code a ≠ some []) ∧
      ∃ p ∈ Store.installed { ledger := {} } [(Host.idle, .deploy DeployOrder.byte)],
        (Store.after { ledger := {} } [(Host.idle, .deploy DeployOrder.byte)]).Callable p.contract := by
  have hempty : ∀ a, ({} : Ledger).code a ≠ some [] := fun _ => nofun
  have hcodes : (Store.installed { ledger := {} } [(Host.idle, .deploy DeployOrder.byte)]).map Passage.code = [[1]] := by
    decide +kernel
  obtain ⟨p, hp, hcode⟩ := List.mem_map.mp (hcodes ▸ List.mem_singleton_self _)
  obtain ⟨-, -, hcallable, -⟩ :=
    Store.deployments_callable { ledger := {} } [(Host.idle, .deploy DeployOrder.byte)] hempty
  exact ⟨hempty, p, hp, hcallable p hp (by rw [hcode]; exact List.cons_ne_nil _ _)⟩

/-- A host whose methods deploy no bytes. -/
def Host.hollow : Host where
  vm.execute _ _ _ _ _ :=
    .ask (.deploy (some []) none none none 500) fun _ => .done { gasUsed := 0, status := .ok, record := none }
  vm.deploy _ _ _ _ := .done { gasUsed := 0, status := .ok, record := none }
  config := {}

/-- After a method has deployed no bytes, there is an address where neither a call nor a deployment is possible. No
account could have deployed them. -/
theorem Host.hollow_installs :
    let after := (Host.hollow.carryOut { ledger := {} } (.execute ExecuteOrder.byte)).store
    Host.hollow.config.validate = .ok () ∧ (∀ a, ({} : Ledger).code a ≠ some []) ∧
      (∃ a, after.ledger.code a = some [] ∧ ¬ after.Callable a ∧
        ∀ (o : DeployOrder) (config : Config), o.address = a →
          o.scope config after (Layers.ofLedger after.ledger) = .error .occupied) ∧
      ∀ (o : DeployOrder) (limits : InputLimits), o.code = [] → o.check limits = .error .emptyCode := by
  have hcodes : (Host.hollow.carryOut { ledger := {} } (.execute ExecuteOrder.byte)).installed.map Passage.code = [[]] := by
    decide +kernel
  obtain ⟨p, hp, hcode⟩ := List.mem_map.mp (hcodes ▸ List.mem_singleton_self _)
  have hinstalled := (Host.hollow.carryOut_deploys { ledger := {} } (.execute ExecuteOrder.byte)).seen p hp
  rw [hcode] at hinstalled
  refine ⟨rfl, fun _ => nofun, ⟨p.contract, hinstalled, ?_, ?_⟩, ?_⟩
  · intro hcallable
    apply hcallable.ordered {} { contract := p.contract, caller := .zero, method := "", gasLimit := 0 } rfl nofun
    simp only [ExecuteOrder.scope, Option.none_or, hinstalled]
  · intro o config ha
    simp only [DeployOrder.scope, ha, hinstalled]
  · intro o limits hnil
    rw [DeployOrder.check, if_pos hnil]
    rfl

end ContractHost
