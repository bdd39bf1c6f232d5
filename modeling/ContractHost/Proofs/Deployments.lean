import ContractHost.Proofs.Atomicity
/-!
# Deployments

A contract is deployed where there is no code, and the code is there from the start of its constructor on. So while a
deployment runs, and for as long as it is kept, no other one is started at its address: neither below it nor later in
the frames around it. What carries this through a run is that no code is ever taken away.
-/
namespace ContractHost

open Ledger (Keeps)

/-! ## The deployments of a call tree -/

def Invocation.isDeployment : Invocation → Bool
  | .call _ _ _ => false
  | .deploy _ _ => true

/-- An invocation that does not run a constructor as a method. -/
def Invocation.Regular (i : Invocation) : Prop :=
  ∀ args context, i ≠ .call constructorName args context

theorem Invocation.regular_call {method : String} (h : method ≠ constructorName) (args context : Bytes) :
    (Invocation.call method args context).Regular := by
  intro args' context' heq
  injection heq with hmethod
  exact h hmethod

theorem Invocation.regular_deploy (args nonce : Bytes) : (Invocation.deploy args nonce).Regular :=
  nofun

/-- How a frame ran that was started to deploy a contract. -/
def FrameRecord.deployment? (r : FrameRecord) : Option Passage :=
  r.passage.filter fun p => p.invocation.isDeployment

theorem FrameRecord.deployment?_eq_some {r : FrameRecord} {p : Passage} :
    r.deployment? = some p ↔ r.passage = some p ∧ p.invocation.isDeployment = true := by
  rw [deployment?, Option.filter_eq_some_iff]

namespace CallRecord

/-- The deployments that were started in a call tree, whatever came of them. -/
def started (t : CallRecord) : List Passage :=
  t.subtrees.filterMap fun u => u.label.deployment?

/-- The deployments that are kept of a call tree. -/
def installed (t : CallRecord) : List Passage :=
  t.committed.filterMap FrameRecord.deployment?

/-- The deployments that are kept of call trees next to each other. -/
def installedAll (ts : List CallRecord) : List Passage :=
  (committedAll ts).filterMap FrameRecord.deployment?

variable {t : CallRecord} {p : Passage}

theorem mem_started : p ∈ t.started ↔ t.label.deployment? = some p ∨ ∃ c ∈ t.children, p ∈ started c := by
  simp only [started, List.mem_filterMap]
  constructor
  · rintro ⟨u, hu, hp⟩
    rcases Tree.mem_subtrees.mp hu with rfl | ⟨c, hc, hu⟩
    · exact .inl hp
    · exact .inr ⟨c, hc, u, hu, hp⟩
  · rintro (hp | ⟨c, hc, u, hu, hp⟩)
    · exact ⟨t, t.self_mem_subtrees, hp⟩
    · exact ⟨u, Tree.mem_subtrees.mpr (.inr ⟨c, hc, hu⟩), hp⟩

theorem installedAll_cons (t : CallRecord) (ts : List CallRecord) :
    installedAll (t :: ts) = t.installed ++ installedAll ts := by
  rw [installedAll, committedAll, List.filterMap_append]
  rfl

theorem mem_installedAll {ts : List CallRecord} : p ∈ installedAll ts ↔ ∃ t ∈ ts, p ∈ t.installed := by
  induction ts with
  | nil => simp [installedAll, committedAll]
  | cons t ts ih => rw [installedAll_cons, List.mem_append, ih]; simp

theorem installed_of_success {r : FrameRecord} {below : List CallRecord} (h : r.result.success) :
    installed (.node r below) = r.deployment?.toList ++ installedAll below := by
  simp only [installed, committed, h, if_true, List.filterMap_cons, installedAll]
  cases r.deployment? <;> rfl

theorem installed_of_failed (h : ¬ t.success) : t.installed = [] := by
  obtain ⟨r, below⟩ := t
  have hnone : committed (.node r below) = [] := if_neg h
  rw [installed, hnone]
  rfl

theorem success_of_mem_installed (h : p ∈ t.installed) : t.success = true := by
  by_cases hr : t.success
  · exact hr
  · rw [installed_of_failed hr] at h
    cases h

/-- Call trees of which the second starts no deployment where the first keeps one. -/
def Apart (t u : CallRecord) : Prop :=
  ∀ p ∈ t.installed, ∀ q ∈ u.started, q.contract ≠ p.contract

/-- What holds of the deployments around a frame. -/
structure DeploysOnce (t : CallRecord) : Prop where
  /-- Below a deployment none is started at its address. -/
  below : ∀ p, t.label.deployment? = some p → ∀ c ∈ t.children, ∀ q ∈ started c, q.contract ≠ p.contract
  /-- After a nested frame that keeps a deployment, none is started at its address. -/
  after : t.children.Pairwise Apart
  /-- A constructor is not run as a method. -/
  regular : ∀ p, t.label.passage = some p → p.invocation.Regular

def AllDeployOnce (t : CallRecord) : Prop :=
  ∀ u ∈ t.subtrees, DeploysOnce u

theorem allDeployOnce_refused (bound : Nat) (action : Action) (why : Refusal) :
    (refused bound action why).AllDeployOnce := by
  refine Tree.forall_subtrees_iff.mpr ⟨?_, ?_⟩
  · refine ⟨?_, List.Pairwise.nil, ?_⟩
    · intro p hp c hc
      cases hc
    · intro p hp
      cases hp
  · intro c hc
    cases hc

theorem started_refused (bound : Nat) (action : Action) (why : Refusal) : (refused bound action why).started = [] :=
  rfl

theorem installed_refused (bound : Nat) (action : Action) (why : Refusal) :
    (refused bound action why).installed = [] :=
  rfl

mutual

theorem mem_started_of_installed (t : CallRecord) {p : Passage} (h : p ∈ t.installed) : p ∈ t.started := by
  match t with
  | .node r below =>
    rw [mem_started]
    by_cases hr : r.result.success
    · rw [installed_of_success hr, List.mem_append, Option.mem_toList] at h
      exact h.imp id (mem_started_of_installedAll below)
    · rw [installed_of_failed (t := .node r below) hr] at h
      cases h

theorem mem_started_of_installedAll (ts : List CallRecord) {p : Passage} (h : p ∈ installedAll ts) :
    ∃ t ∈ ts, p ∈ t.started := by
  match ts with
  | [] => cases h
  | t :: ts =>
    rw [installedAll_cons, List.mem_append] at h
    rcases h with hfirst | hrest
    · exact ⟨t, List.mem_cons_self, mem_started_of_installed t hfirst⟩
    · obtain ⟨u, hu, hp⟩ := mem_started_of_installedAll ts hrest
      exact ⟨u, List.mem_cons_of_mem _ hu, hp⟩

end

/-- Passages of which no two are at the same address. -/
abbrev Distinct (ps : List Passage) : Prop :=
  ps.Pairwise fun p q => q.contract ≠ p.contract

mutual

/-- No two of the deployments that are kept of a call tree are at the same address. -/
theorem AllDeployOnce.distinct (t : CallRecord) (h : t.AllDeployOnce) : Distinct t.installed := by
  match t with
  | .node r below =>
    obtain ⟨hroot, hchildren⟩ := Tree.forall_subtrees_iff.mp h
    by_cases hr : r.result.success
    · have hbelow : Distinct (installedAll below) := distinct_installedAll below hchildren hroot.after
      rw [installed_of_success hr]
      refine List.pairwise_append.mpr ⟨?_, hbelow, ?_⟩
      · cases r.deployment? with
        | none => exact List.Pairwise.nil
        | some p => exact List.pairwise_singleton _ p
      · intro p hp q hq
        obtain ⟨c, hc, hstarted⟩ := mem_started_of_installedAll below hq
        exact hroot.below p (Option.mem_toList.mp hp) c hc q hstarted
    · rw [installed_of_failed (t := .node r below) hr]
      exact List.Pairwise.nil

theorem distinct_installedAll (ts : List CallRecord) (h : ∀ t ∈ ts, t.AllDeployOnce) (hapart : ts.Pairwise Apart) :
    Distinct (installedAll ts) := by
  match ts with
  | [] => exact List.Pairwise.nil
  | t :: ts =>
    obtain ⟨hfirst, hrest⟩ := List.pairwise_cons.mp hapart
    rw [installedAll_cons]
    refine List.pairwise_append.mpr ⟨AllDeployOnce.distinct t (h t List.mem_cons_self), ?_, ?_⟩
    · exact distinct_installedAll ts (fun u hu => h u (List.mem_cons_of_mem _ hu)) hrest
    · intro p hp q hq
      obtain ⟨u, hu, hstarted⟩ := mem_started_of_installedAll ts hq
      exact hfirst u hu p hp q hstarted

end

end CallRecord

open CallRecord (AllDeployOnce Apart)

/-! ## Frames -/

/-- What a scope is like in which an invocation is run: the code of a deployment is installed, and a call is not of the
reserved method. -/
structure Scope.Readied (s : Scope Ledger) (i : Invocation) : Prop where
  installed : i.isDeployment = true → s.world.code s.own.contract = some s.own.code
  regular : i.Regular

/-- What a frame that was started in a scope has deployed. -/
structure FrameOutcome.Deploys (s : Scope Ledger) (i : Invocation) (outcome : FrameOutcome Ledger) : Prop where
  own : ∀ p, outcome.record.label.deployment? = some p → i.isDeployment = true ∧ p.contract = s.own.contract
  fresh : ∀ t ∈ outcome.record.children, ∀ p ∈ CallRecord.started t, s.world.code p.contract = none
  seen : ∀ p ∈ outcome.record.installed, outcome.world.code p.contract = some p.code
  once : outcome.record.AllDeployOnce

namespace Frame

/-- What holds of the deployments below a frame that was started in a scope. -/
structure Deploying (s : Scope Ledger) (f : Frame Ledger) : Prop where
  keeps : s.world.Keeps f.scope.world
  fresh : ∀ t ∈ f.children, ∀ p ∈ CallRecord.started t, s.world.code p.contract = none
  seen : ∀ t ∈ f.children, ∀ p ∈ CallRecord.installed t, f.scope.world.code p.contract = some p.code
  apart : f.children.Pairwise Apart
  below : ∀ t ∈ f.children, AllDeployOnce t

variable {s : Scope Ledger} {f g : Frame Ledger} {config : Config} {run : Runner Ledger}

theorem Deploying.same (h : f.Deploying s) (hkeeps : f.scope.world.Keeps g.scope.world)
    (hchildren : g.children = f.children) : g.Deploying s where
  keeps := h.keeps.trans hkeeps
  fresh := by
    rw [hchildren]
    exact h.fresh
  seen := by
    rw [hchildren]
    exact fun t ht p hp => hkeeps.code (h.seen t ht p hp)
  apart := by
    rw [hchildren]
    exact h.apart
  below := by
    rw [hchildren]
    exact h.below

theorem Deploying.nest (h : f.Deploying s) (hkeeps : f.scope.world.Keeps g.scope.world) {t : CallRecord}
    (hchildren : g.children = f.children ++ [t]) (hfresh : ∀ p ∈ t.started, f.scope.world.code p.contract = none)
    (hseen : ∀ p ∈ t.installed, g.scope.world.code p.contract = some p.code) (honce : t.AllDeployOnce) :
    g.Deploying s := by
  have hbefore := h.same (g := { g with children := f.children }) hkeeps rfl
  refine ⟨hbefore.keeps, ?_, ?_, ?_, ?_⟩ <;> rw [hchildren]
  · intro u hu p hp
    rcases List.mem_append.mp hu with hu | hu
    · exact h.fresh u hu p hp
    · rw [List.mem_singleton.mp hu] at hp
      exact h.keeps.code_eq_none (hfresh p hp)
  · intro u hu p hp
    rcases List.mem_append.mp hu with hu | hu
    · exact hbefore.seen u hu p hp
    · rw [List.mem_singleton.mp hu] at hp
      exact hseen p hp
  · refine List.pairwise_append.mpr ⟨h.apart, List.pairwise_singleton _ t, ?_⟩
    intro u hu v hv p hp q hq heq
    rw [List.mem_singleton.mp hv] at hq
    -- What an earlier frame has kept is still there, so the new frame cannot have started at its address.
    have hnone := hfresh q hq
    rw [heq, h.seen u hu p hp] at hnone
    cases hnone
  · intro u hu
    rcases List.mem_append.mp hu with hu | hu
    · exact h.below u hu
    · rw [List.mem_singleton.mp hu]
      exact honce

theorem Entry.regular {W : Type} [World W] {f : Frame W} {c : Command} {n : Command.Nesting} (hn : c.nesting = some n)
    {t : Scope W} (h : f.Entry c t) : n.invocation.Regular := by
  cases h with
  | call call b code t hcode hmethod hstack hs =>
    cases hn
    exact Invocation.regular_call hmethod call.args call.context
  | deploy d t hcode hstack hs =>
    cases hn
    exact Invocation.regular_deploy d.args d.nonce

theorem Entry.readied {c : Command} {n : Command.Nesting} (hn : c.nesting = some n) {t : Scope Ledger}
    (h : f.Entry c t) : t.Readied n.invocation := by
  refine ⟨?_, h.regular hn⟩
  intro hdeploy
  cases h with
  | call call b code t hcode hmethod hstack hs =>
    cases hn
    cases hdeploy
  | deploy d t hcode hstack hs =>
    cases hn
    obtain ⟨u, hu, rfl⟩ := Scope.forDeploy_ok hs
    have hcontract : u.own.contract = d.address := Scope.receive_contract hu
    have hown : u.own.code = d.code := Scope.receive_code hu
    show (u.world.write (.setCode d.address d.code)).code u.own.contract = some u.own.code
    rw [hcontract, hown]
    exact Ledger.code_setCode_self _ _

theorem Entry.unoccupied {c : Command} {n : Command.Nesting} (hn : c.nesting = some n) {t : Scope Ledger}
    (h : f.Entry c t) (hdeploy : n.invocation.isDeployment = true) : f.scope.world.code t.own.contract = none := by
  cases h with
  | call call b code t hcode hmethod hstack hs =>
    cases hn
    cases hdeploy
  | deploy d t hcode hstack hs =>
    obtain ⟨u, hu, rfl⟩ := Scope.forDeploy_ok hs
    have hcontract : u.own.contract = d.address := Scope.receive_contract hu
    show f.scope.world.code u.own.contract = none
    rw [hcontract]
    exact hcode

theorem Deploying.move (hkept : ∀ (s : Scope Ledger) stack i amount gas, s.world.Keeps (run s stack i amount gas).world)
    (hrun : ∀ s stack i amount gas, s.Readied i → (run s stack i amount gas).Deploys s i) (h : f.Deploying s)
    {r : Request} {c : Command} {out : Except HostError Settled × Frame Ledger}
    (hcheck : r.check config.limits f.scope.own.contract = .ok c) (hmove : f.Move config run c out) :
    out.2.Deploying s := by
  have hkeeps : f.scope.world.Keeps out.2.scope.world := (ledgerRule_keeps config).move hkept hcheck hmove
  cases hmove with
  | done v hc hfunds => exact h.same (g := f.written c) hkeeps rfl
  | failed e hc => exact h.same (g := f.charged c) hkeeps rfl
  | refused n why hc =>
    refine h.nest hkeeps (record_children f _) ?_ ?_ (CallRecord.allDeployOnce_refused _ _ why)
    · intro p hp
      rw [CallRecord.started_refused] at hp
      cases hp
    · intro p hp
      rw [CallRecord.installed_refused] at hp
      cases hp
  | ran n t hc ht =>
    let limit := Gas.least n.gas f.meter.remaining
    let outcome := run t f.stack n.invocation n.amount limit
    have hbelow : outcome.Deploys t n.invocation := hrun t f.stack n.invocation n.amount limit (ht.readied hc)
    have hentry : f.scope.world.Keeps t.world := (ledgerRule_keeps config).entry f r c t hcheck ht
    refine h.nest hkeeps (record_children (f.resume outcome) outcome.record) ?_ ?_ hbelow.once
    · intro p hp
      rcases CallRecord.mem_started.mp hp with hown | ⟨u, hu, hp⟩
      · obtain ⟨hdeployment, hcontract⟩ := hbelow.own p hown
        rw [hcontract]
        exact ht.unoccupied hc hdeployment
      · exact hentry.code_eq_none (hbelow.fresh u hu p hp)
    · intro p hp
      have hok : outcome.record.success = true := CallRecord.success_of_mem_installed hp
      have hresume : (f.resume outcome).scope = f.scope.join outcome.world := by rw [resume, if_pos hok]
      have hscope : ((f.resume outcome).record outcome.record).2.scope = f.scope.join outcome.world := by
        rw [record_scope, hresume]
      rw [hscope]
      exact hbelow.seen p hp

theorem Deploying.answer (hkept : ∀ (s : Scope Ledger) stack i amount gas, s.world.Keeps (run s stack i amount gas).world)
    (hrun : ∀ s stack i amount gas, s.Readied i → (run s stack i amount gas).Deploys s i) (h : f.Deploying s)
    (r : Request) : (f.answer config run r).2.Deploying s := by
  rw [Frame.answer]
  cases hcheck : r.check config.limits f.scope.own.contract with
  | error e =>
    obtain ⟨b, hb⟩ := exchange_frame f r (.error e, f)
    rw [hb]
    exact h.same (.refl _) rfl
  | ok c =>
    obtain ⟨b, hb⟩ := exchange_frame f r (f.perform config run c)
    rw [hb]
    exact (h.move hkept hrun hcheck (perform_move config run f c)).same (.refl _) rfl

theorem play_deploying (hkept : ∀ (s : Scope Ledger) stack i amount gas, s.world.Keeps (run s stack i amount gas).world)
    (hrun : ∀ s stack i amount gas, s.Readied i → (run s stack i amount gas).Deploys s i) {α : Type} (p : Program α)
    (h : f.Deploying s) : (play config run p f).2.2.Deploying s := by
  induction p generalizing f with
  | done a => exact h
  | crash reason => exact h
  | ask r next ih => exact ih _ (h.answer hkept hrun r)

theorem deploying_start (s : Scope Ledger) (stack : CallStack) (gas : Gas) : (start s stack gas).Deploying s := by
  refine ⟨.refl _, ?_, ?_, List.Pairwise.nil, ?_⟩
  all_goals
    intro t ht
    cases ht

end Frame

theorem runEntered_deploys {vm : Vm} {config : Config} {run : Runner Ledger}
    (hkept : ∀ (s : Scope Ledger) stack i amount gas, s.world.Keeps (run s stack i amount gas).world)
    (hrun : ∀ s stack i amount gas, s.Readied i → (run s stack i amount gas).Deploys s i) (entered : CallStack)
    {s : Scope Ledger} (stack : CallStack) {i : Invocation} (amount : Amount) (gas : Gas) (hs : s.Readied i) :
    (runEntered vm config run entered s stack i amount gas).Deploys s i := by
  let played := Frame.play config run (vm.program i s.own.code gas) (.start s entered gas)
  have hplay : played.2.2.Deploying s := Frame.play_deploying hkept hrun _ (Frame.deploying_start s entered gas)
  have hown : ∀ p, (runEntered vm config run entered s stack i amount gas).record.label.deployment? = some p →
      i.isDeployment = true ∧ p.contract = s.own.contract ∧ p.code = s.own.code := by
    intro p hp
    obtain ⟨hpassage, hdeployment⟩ := FrameRecord.deployment?_eq_some.mp hp
    cases hpassage
    exact ⟨hdeployment, rfl, rfl⟩
  refine ⟨fun p hp => ⟨(hown p hp).1, (hown p hp).2.1⟩, hplay.fresh, ?_, ?_⟩
  · intro p hp
    have hok := CallRecord.success_of_mem_installed hp
    have hmem := (CallRecord.installed_of_success hok) ▸ hp
    rcases List.mem_append.mp hmem with hmem | hmem
    · obtain ⟨hdeployment, hcontract, hcode⟩ := hown p (Option.mem_toList.mp hmem)
      rw [hcontract, hcode]
      exact hplay.keeps.code (hs.installed hdeployment)
    · obtain ⟨t, ht, hp⟩ := CallRecord.mem_installedAll.mp hmem
      exact hplay.seen t ht p hp
  · refine Tree.forall_subtrees_iff.mpr ⟨?_, hplay.below⟩
    refine ⟨?_, hplay.apart, ?_⟩
    · intro p hp t ht q hq heq
      -- The code of this deployment was installed before the first nested frame was asked for.
      obtain ⟨hdeployment, hcontract, -⟩ := hown p hp
      have hnone := hplay.fresh t ht q hq
      rw [heq, hcontract, hs.installed hdeployment] at hnone
      cases hnone
    · intro p hp
      cases hp
      exact hs.regular

theorem runFrame_deploys (vm : Vm) (config : Config) (room : Nat) (s : Scope Ledger) (stack : CallStack) (i : Invocation)
    (amount : Amount) (gas : Gas) (hs : s.Readied i) : (runFrame vm config room s stack i amount gas).Deploys s i := by
  have hrefused : ∀ s stack i amount gas e,
      FrameOutcome.Deploys s i (.refused config s stack (i.action amount gas) e) := by
    intro s stack i amount gas e
    refine ⟨?_, ?_, ?_, CallRecord.allDeployOnce_refused _ _ _⟩
    all_goals
      intro p hp
      cases hp
  induction room generalizing s stack i amount gas with
  | zero => exact hrefused s stack i amount gas _
  | succ room ih =>
    simp only [runFrame]
    cases stack.enter s.own.contract s.own.caller amount with
    | error e => exact hrefused s stack i amount gas e
    | ok entered =>
      exact runEntered_deploys ((ledgerRule_keeps config).runFrame vm room) ih entered stack amount gas hs

/-! ## Orders -/

theorem Order.Entry.readied {config : Config} {store : Store} {order : Order} {s : Scope Ledger}
    (h : Order.Entry config store store.ledger order s) : s.Readied order.invocation := by
  cases h with
  | execute o b code s hcode hmethod hs =>
    exact ⟨nofun, Invocation.regular_call hmethod _ _⟩
  | deploy o s hcode hs =>
    have hcontract : s.own.contract = o.address := Scope.receive_contract hs
    have hown : s.own.code = o.code := Scope.receive_code hs
    refine ⟨fun _ => ?_, Invocation.regular_deploy _ _⟩
    show (s.world.write (.setCode o.address o.code)).code s.own.contract = some s.own.code
    rw [hcontract, hown]
    exact Ledger.code_setCode_self _ _

theorem Order.Entry.unoccupied {config : Config} {store : Store} {order : Order} {s : Scope Ledger}
    (h : Order.Entry config store store.ledger order s) (hdeploy : order.invocation.isDeployment = true) :
    store.ledger.code s.own.contract = none := by
  cases h with
  | execute o b code s hcode hmethod hs => cases hdeploy
  | deploy o s hcode hs =>
    have hcontract : s.own.contract = o.address := Scope.receive_contract hs
    show store.ledger.code s.own.contract = none
    rw [hcontract]
    exact hcode

namespace Completion

/-- The deployments that an order has started, whatever came of them. -/
def started (c : Completion) : List Passage :=
  (c.record.map CallRecord.started).getD []

/-- The deployments of an order that have reached the ledger. -/
def installed (c : Completion) : List Passage :=
  match c.answer with
  | .ok _ => (c.record.map CallRecord.installed).getD []
  | .error _ => []

/-- What an order has deployed on a store. -/
structure Deploys (store : Store) (c : Completion) : Prop where
  keeps : store.ledger.Keeps c.store.ledger
  fresh : ∀ p ∈ c.started, store.ledger.code p.contract = none
  seen : ∀ p ∈ c.installed, c.store.ledger.code p.contract = some p.code
  started : ∀ p ∈ c.installed, p ∈ c.started
  distinct : CallRecord.Distinct c.installed
  once : ∀ t, c.record = some t → t.AllDeployOnce

theorem installed_of_record (c : Completion) : c.installed = [] ∨ ∃ t, c.record = some t ∧ c.installed = t.installed := by
  unfold installed
  split
  · cases c.record with
    | none => exact .inl rfl
    | some t => exact .inr ⟨t, rfl, rfl⟩
  · exact .inl rfl

end Completion

namespace Host

variable (h : Host) (store : Store) (order : Order)

theorem outermost_deploys {s : Scope Ledger} (hs : Order.Entry h.config store store.ledger order s) :
    (h.outermost order s).Deploys s order.invocation :=
  runFrame_deploys h.vm h.config _ s h.stack order.invocation order.amount order.gasLimit hs.readied

theorem carryOut_started {t : CallRecord} (ht : (h.carryOut store order).record = some t) :
    (∀ p ∈ t.started, store.ledger.code p.contract = none) ∧ t.AllDeployOnce := by
  obtain ⟨-, ⟨why, rfl⟩ | ⟨s, hs, rfl⟩⟩ := carryOut_record ht
  · refine ⟨?_, CallRecord.allDeployOnce_refused _ _ why⟩
    intro p hp
    rw [CallRecord.started_refused] at hp
    cases hp
  · have hdeploys := h.outermost_deploys store order hs
    refine ⟨?_, hdeploys.once⟩
    intro p hp
    rcases CallRecord.mem_started.mp hp with hown | ⟨t, ht, hp⟩
    · obtain ⟨hdeployment, hcontract⟩ := hdeploys.own p hown
      rw [hcontract]
      exact hs.unoccupied hdeployment
    · exact hs.keeps.code_eq_none (hdeploys.fresh t ht p hp)

theorem carryOut_seen :
    ∀ p ∈ (h.carryOut store order).installed, (h.carryOut store order).store.ledger.code p.contract = some p.code := by
  have hend := h.carryOut_end store order
  generalize h.carryOut store order = c at hend ⊢
  intro p hp
  cases hend with
  | barred e hcheck => cases hp
  | refused why hcheck hscope => cases hp
  | rejected s reason hcheck hs hok hstore => cases hp
  | failed s hcheck hs hfail =>
    have hok := CallRecord.success_of_mem_installed (t := (h.outermost order s).record) hp
    rw [hfail] at hok
    cases hok
  | committed s hcheck hs hok hstore => exact (h.outermost_deploys store order hs).seen p hp

theorem carryOut_deploys : (h.carryOut store order).Deploys store := by
  have hstarted : ∀ p ∈ (h.carryOut store order).installed, p ∈ (h.carryOut store order).started := by
    intro p hp
    rcases (h.carryOut store order).installed_of_record with hnone | ⟨t, ht, hinstalled⟩
    · rw [hnone] at hp
      cases hp
    · rw [hinstalled] at hp
      rw [Completion.started, ht]
      exact CallRecord.mem_started_of_installed t hp
  refine ⟨h.carryOut_keeps store order, ?_, h.carryOut_seen store order, hstarted, ?_, ?_⟩
  · intro p hp
    cases ht : (h.carryOut store order).record with
    | none =>
      rw [Completion.started, ht] at hp
      cases hp
    | some t =>
      rw [Completion.started, ht] at hp
      exact (h.carryOut_started store order ht).1 p hp
  · rcases (h.carryOut store order).installed_of_record with hnone | ⟨t, ht, hinstalled⟩
    · rw [hnone]
      exact List.Pairwise.nil
    · rw [hinstalled]
      exact AllDeployOnce.distinct t (h.carryOut_started store order ht).2
  · exact fun t ht => (h.carryOut_started store order ht).2

end Host

end ContractHost
