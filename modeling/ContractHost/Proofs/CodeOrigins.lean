import ContractHost.Proofs.OrderHistories
/-!
# Where code comes from

The codes of a ledger after any orders are those that it held before and those of the deployments that reached it, each
at its address.
-/
namespace ContractHost

/-- The codes of a later ledger are in an earlier one or those of passages, each at its contract. -/
def Ledger.CodeFrom (l l' : Ledger) (ps : List Passage) : Prop :=
  ∀ a code, l'.code a = some code → l.code a = some code ∨ ∃ p ∈ ps, p.contract = a ∧ p.code = code

namespace Ledger.CodeFrom

variable {l l' l'' : Ledger} {ps qs : List Passage}

theorem of_same (h : ∀ a, l'.code a = l.code a) : l.CodeFrom l' [] := by
  intro a code hcode
  rw [h] at hcode
  exact .inl hcode

theorem refl (l : Ledger) : l.CodeFrom l [] :=
  of_same fun _ => rfl

theorem trans (h : l.CodeFrom l' ps) (h' : l'.CodeFrom l'' qs) : l.CodeFrom l'' (ps ++ qs) := by
  intro a code hcode
  rcases h' a code hcode with hcode | ⟨q, hq, hplace⟩
  · rcases h a code hcode with hcode | ⟨p, hp, hplace⟩
    · exact .inl hcode
    · exact .inr ⟨p, List.mem_append_left _ hp, hplace⟩
  · exact .inr ⟨q, List.mem_append_right _ hq, hplace⟩

end Ledger.CodeFrom

open CallRecord (installedAll)

theorem CallRecord.installedAll_concat (ts : List CallRecord) (t : CallRecord) :
    installedAll (ts ++ [t]) = installedAll ts ++ t.installed := by
  induction ts with
  | nil => rw [List.nil_append, installedAll_cons]; exact List.append_nil _
  | cons u ts ih => rw [List.cons_append, installedAll_cons, installedAll_cons, ih, List.append_assoc]

/-! ## Entering frames -/

/-- A scope in which an invocation is run has the codes of a ledger, and for a deployment the one that is deployed. -/
def Scope.CodedLike (s : Scope Ledger) (i : Invocation) (l : Ledger) : Prop :=
  ∀ a code, s.world.code a = some code →
    l.code a = some code ∨ i.isDeployment = true ∧ s.own.contract = a ∧ s.own.code = code

theorem Scope.codedLike_receive {s t : Scope Ledger} {sender : Address} {amount : Nat}
    (h : s.receive sender amount = .ok t) (i : Invocation) : t.CodedLike i s.world := by
  intro a code hcode
  rw [(receive_keeps h).2] at hcode
  exact .inl hcode

theorem Scope.codedLike_install {s t : Scope Ledger} {sender : Address} {amount : Nat}
    (h : s.receive sender amount = .ok t) (args nonce : Bytes) :
    (t.write (.setCode s.own.contract s.own.code)).CodedLike (.deploy args nonce) s.world := by
  have hcontract : t.own.contract = s.own.contract := receive_contract h
  have hown : t.own.code = s.own.code := receive_code h
  intro a code hcode
  have hcode : (t.world.write (.setCode s.own.contract s.own.code)).code a = some code := hcode
  by_cases ha : s.own.contract = a
  · rw [ha, Ledger.code_setCode_self] at hcode
    exact .inr ⟨rfl, hcontract.trans ha, hown.trans (Option.some.inj hcode)⟩
  · rw [Ledger.code_setCode_of_ne _ ha, (receive_keeps h).2] at hcode
    exact .inl hcode

theorem Frame.Entry.codedLike {f : Frame Ledger} {c : Command} {n : Command.Nesting} (hn : c.nesting = some n)
    {t : Scope Ledger} (h : f.Entry c t) : t.CodedLike n.invocation f.scope.world := by
  cases h with
  | call call b code t hcode hmethod hstack hs => exact Scope.codedLike_receive hs n.invocation
  | deploy d t hcode hstack hs =>
    cases hn
    obtain ⟨u, hu, rfl⟩ := Scope.forDeploy_ok hs
    exact Scope.codedLike_install (s := f.scope.child d.address d.code d.amount) hu d.args d.nonce

theorem Order.Entry.codedLike {config : Config} {store : Store} {order : Order} {s : Scope Ledger}
    (h : Order.Entry config store store.ledger order s) : s.CodedLike order.invocation store.ledger := by
  cases h with
  | execute o b code s hcode hmethod hs => exact Scope.codedLike_receive hs o.invocation
  | deploy o s hcode hs => exact Scope.codedLike_install hs (Arguments.pack o.args) o.nonce

/-! ## Frames -/

/-- Where the codes come from that a frame leaves behind if it succeeds. -/
structure FrameOutcome.Installs (s : Scope Ledger) (i : Invocation) (outcome : FrameOutcome Ledger) : Prop where
  own : i.isDeployment = true →
    ∃ p, outcome.record.label.deployment? = some p ∧ p.contract = s.own.contract ∧ p.code = s.own.code
  below : s.world.CodeFrom outcome.world (installedAll outcome.record.children)

theorem FrameOutcome.Installs.codeFrom {s : Scope Ledger} {i : Invocation} {outcome : FrameOutcome Ledger} {l : Ledger}
    (h : outcome.Installs s i) (hs : s.CodedLike i l) (hok : outcome.record.success = true) :
    l.CodeFrom outcome.world outcome.record.installed := by
  have hsplit : outcome.record.installed =
      outcome.record.label.deployment?.toList ++ installedAll outcome.record.children := by
    generalize outcome.record = t at hok
    obtain ⟨r, below⟩ := t
    exact CallRecord.installed_of_success hok
  rw [hsplit]
  refine Ledger.CodeFrom.trans ?_ h.below
  intro a code hcode
  rcases hs a code hcode with hcode | ⟨hdeploy, hcontract, hown⟩
  · exact .inl hcode
  · obtain ⟨p, hp, hat, hof⟩ := h.own hdeploy
    exact .inr ⟨p, Option.mem_toList.mpr hp, hat.trans hcontract, hof.trans hown⟩

namespace Frame

variable {config : Config} {run : Runner Ledger} {f : Frame Ledger}

theorem Move.codeFrom
    (hrun : ∀ s stack i amount gas, (run s stack i amount gas).record.success = true →
      (run s stack i amount gas).Installs s i) {l : Ledger}
    (hf : l.CodeFrom f.scope.world (installedAll f.children)) {c : Command} {out : Except HostError Settled × Frame Ledger}
    (h : f.Move config run c out) : l.CodeFrom out.2.scope.world (installedAll out.2.children) := by
  cases h with
  | done v hc hfunds =>
    have hsame : f.scope.world.CodeFrom (f.written c).scope.world [] := by
      apply Ledger.CodeFrom.of_same
      intro a
      show (f.scope.writeAll (c.writes f.scope)).world.code a = _
      rw [Scope.world_writeAll]
      exact Ledger.code_foldl_write (c.setCode_notMem_writes f.scope) a
    have htrans := hf.trans hsame
    rw [List.append_nil] at htrans
    exact htrans
  | failed e hc => exact hf
  | refused n why hc =>
    rw [record_scope, record_children, CallRecord.installedAll_concat]
    exact hf.trans (.refl _)
  | ran n t hc ht =>
    let outcome := run t f.stack n.invocation n.amount (Gas.least n.gas f.meter.remaining)
    show l.CodeFrom ((f.resume outcome).record outcome.record).2.scope.world
      (installedAll ((f.resume outcome).record outcome.record).2.children)
    rw [record_scope, record_children, CallRecord.installedAll_concat]
    cases hok : outcome.record.success with
    | true =>
      have hinstalls := (hrun t f.stack n.invocation n.amount _ hok).codeFrom (ht.codedLike hc) hok
      rw [resume, if_pos hok]
      exact hf.trans hinstalls
    | false =>
      have hfail : ¬ outcome.record.success = true := by rw [hok]; exact Bool.false_ne_true
      rw [resume, if_neg hfail, CallRecord.installed_of_failed hfail]
      exact hf.trans (.refl _)

theorem play_codeFrom
    (hrun : ∀ s stack i amount gas, (run s stack i amount gas).record.success = true →
      (run s stack i amount gas).Installs s i) {α : Type} (p : Program α) (s : Scope Ledger) (stack : CallStack)
    (gas : Gas) :
    let g := (play config run p (.start s stack gas)).2.2
    s.world.CodeFrom g.scope.world (installedAll g.children) := by
  refine play_induct (P := fun _ g => s.world.CodeFrom g.scope.world (installedAll g.children)) ?_ ?_ p [] _ (.refl _)
  · intro _ g r e hg _
    rw [exchange_scope, exchange_children]
    exact hg
  · intro _ g r c out hg _ hmove
    rw [exchange_scope, exchange_children]
    exact hmove.codeFrom hrun hg

end Frame

theorem runFrame_installs (vm : Vm) (config : Config) (room : Nat) (s : Scope Ledger) (stack : CallStack) (i : Invocation)
    (amount : Amount) (gas : Gas) (hok : (runFrame vm config room s stack i amount gas).record.success = true) :
    (runFrame vm config room s stack i amount gas).Installs s i := by
  revert hok
  refine runFrame_induct (P := fun s _ i _ _ outcome => outcome.record.success = true → outcome.Installs s i)
    ?_ ?_ room s stack i amount gas
  · intro s stack i amount gas e hok
    cases hok
  · intro run hrun s stack i amount gas entered _ _
    refine ⟨fun hdeploy => ?_, Frame.play_codeFrom hrun (vm.program i s.own.code gas) s entered gas⟩
    exact ⟨_, FrameRecord.deployment?_eq_some.mpr ⟨rfl, hdeploy⟩, rfl, rfl⟩

/-! ## Orders -/

theorem Host.carryOut_codeFrom (h : Host) (store : Store) (order : Order) :
    store.ledger.CodeFrom (h.carryOut store order).store.ledger (h.carryOut store order).installed := by
  have hend := h.carryOut_end store order
  generalize h.carryOut store order = c at hend ⊢
  cases hend with
  | barred e hcheck => exact fun a code hcode => .inl hcode
  | refused why hcheck hscope => exact fun a code hcode => .inl hcode
  | failed s hcheck hs hfail => exact fun a code hcode => .inl hcode
  | rejected s reason hcheck hs hok hstore => exact fun a code hcode => .inl hcode
  | committed s hcheck hs hok hstore =>
    exact (runFrame_installs h.vm h.config _ s h.stack _ _ _ hok).codeFrom hs.codedLike hok

namespace Store

theorem after_codeFrom (store : Store) (agenda : List (Host × Order)) :
    store.ledger.CodeFrom (store.after agenda).ledger (store.installed agenda) := by
  induction agenda generalizing store with
  | nil => exact .refl _
  | cons e agenda ih =>
    obtain ⟨h, order⟩ := e
    rw [installed_cons]
    exact (h.carryOut_codeFrom store order).trans (ih _)

/-- The codes after orders are those from before and those of the deployments that have reached the ledger. -/
theorem code_after_iff {store : Store} {agenda : List (Host × Order)} {a : Address} {code : Bytes} :
    (store.after agenda).ledger.code a = some code ↔
      store.ledger.code a = some code ∨ ∃ p ∈ store.installed agenda, p.contract = a ∧ p.code = code := by
  constructor
  · exact store.after_codeFrom agenda a code
  · rintro (hcode | ⟨p, hp, rfl, rfl⟩)
    · exact (store.after_keeps agenda).code hcode
    · exact installed_seen hp

end Store

end ContractHost
