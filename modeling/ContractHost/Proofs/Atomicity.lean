import ContractHost.Proofs.LedgerRuns
/-!
# All or nothing

An order that fails for whatever reason leaves the store as it was. One that succeeds adds the events that it reports to
the log, and one that deploys leaves its code at the address that it reports: no frame of the call tree can take code or
events away again.
-/
namespace ContractHost

namespace Ledger

variable {l : Ledger}

theorem code_write_of_ne {x : Write} (hx : ∀ a code, x ≠ .setCode a code) (b : Address) :
    (l.write x).code b = l.code b := by
  cases x with
  | setStorage contract key value => exact l.field_modify Account.code _ _ fun _ => rfl
  | removeStorage contract key => exact l.field_modify Account.code _ _ fun _ => rfl
  | setBalance a balance => exact l.field_modify Account.code _ _ fun _ => rfl
  | setCode a code => exact absurd rfl (hx a code)
  | pushEvent e => rfl
  | addBurnt amount => rfl

theorem code_setCode_self (a : Address) (code : Bytes) : (l.write (.setCode a code)).code a = some code := by
  simp only [write, setCode, Ledger.code, accountAt_modify_self]

theorem code_setCode_of_ne {a b : Address} (code : Bytes) (h : a ≠ b) :
    (l.write (.setCode a code)).code b = l.code b := by
  simp only [write, setCode, Ledger.code, accountAt_modify_of_ne _ _ h]

theorem code_foldl_write {ws : List Write} (hws : ∀ a code, Write.setCode a code ∉ ws) (b : Address) :
    (ws.foldl write l).code b = l.code b := by
  induction ws generalizing l with
  | nil => rfl
  | cons x ws ih =>
    have hx : ∀ a code, x ≠ .setCode a code := fun a code e => hws a code (e ▸ List.mem_cons_self)
    rw [List.foldl_cons, ih fun a code h => hws a code (List.mem_cons_of_mem _ h)]
    exact code_write_of_ne hx b

/-- What a later ledger still has: the events that were logged and the codes that were installed. -/
structure Keeps (l l' : Ledger) : Prop where
  events : l.events <+: l'.events
  code : ∀ {a code}, l.code a = some code → l'.code a = some code

theorem Keeps.refl (l : Ledger) : l.Keeps l :=
  ⟨List.prefix_refl _, id⟩

theorem Keeps.trans {l' l'' : Ledger} (h : l.Keeps l') (h' : l'.Keeps l'') : l.Keeps l'' :=
  ⟨h.events.trans h'.events, fun hc => h'.code (h.code hc)⟩

theorem Keeps.code_eq_none {l' : Ledger} (h : l.Keeps l') {a : Address} (ha : l'.code a = none) : l.code a = none := by
  cases hcode : l.code a with
  | none => rfl
  | some code =>
    rw [h.code hcode] at ha
    cases ha

theorem events_write (x : Write) : l.events <+: (l.write x).events := by
  cases x with
  | pushEvent e => exact List.prefix_append _ _
  | _ => exact List.prefix_refl _

theorem Keeps.write {x : Write} (hx : ∀ a code, x = .setCode a code → l.code a = none) : l.Keeps (l.write x) := by
  refine ⟨l.events_write x, ?_⟩
  intro b code hb
  by_cases hset : ∃ a new, x = .setCode a new
  · obtain ⟨a, new, rfl⟩ := hset
    -- The address has code already, so it is not the one that is written to.
    have hab : a ≠ b := by
      rintro rfl
      have hnone := hx a new rfl
      rw [hb] at hnone
      cases hnone
    rw [code_setCode_of_ne new hab, hb]
  · rw [code_write_of_ne (fun a new e => hset ⟨a, new, e⟩), hb]

theorem Keeps.foldl {ws : List Write} (hws : ∀ a code, Write.setCode a code ∉ ws) :
    l.Keeps (ws.foldl Ledger.write l) := by
  induction ws generalizing l with
  | nil => exact .refl l
  | cons x ws ih =>
    have hx : l.Keeps (l.write x) := by
      apply Keeps.write
      rintro a code rfl
      exact absurd List.mem_cons_self (hws a code)
    exact hx.trans (ih fun a code h => hws a code (List.mem_cons_of_mem _ h))

end Ledger

open Ledger (Keeps)

/-! ## Writes of code -/

theorem Scope.setCode_notMem_transfer {W : Type} [World W] (s : Scope W) (payer payee : Address) (amount : Nat)
    (a : Address) (code : Bytes) : Write.setCode a code ∉ s.transfer payer payee amount := by
  simp [transfer]

theorem Command.setCode_notMem_writes {W : Type} [World W] (s : Scope W) (c : Command) (a : Address) (code : Bytes) :
    Write.setCode a code ∉ c.writes s := by
  cases c with
  | send payee amount => exact s.setCode_notMem_transfer _ _ _ a code
  | _ => simp [writes]

theorem Scope.receive_keeps {s t : Scope Ledger} {sender : Address} {amount : Nat}
    (h : s.receive sender amount = .ok t) : s.world.Keeps t.world ∧ ∀ a, t.world.code a = s.world.code a := by
  rcases receive_ok h with ⟨_, rfl⟩ | ⟨_, _, rfl⟩
  · exact ⟨.refl _, fun _ => rfl⟩
  · have hws := s.setCode_notMem_transfer sender s.own.contract amount
    simp only [world_writeAll]
    exact ⟨Keeps.foldl hws, Ledger.code_foldl_write hws⟩

theorem Scope.install_keeps {s t : Scope Ledger} {sender : Address} {amount : Nat} {a : Address} {code : Bytes}
    (h : s.receive sender amount = .ok t) (hcode : s.world.code a = none) :
    s.world.Keeps (t.write (.setCode a code)).world := by
  obtain ⟨hkeeps, hsame⟩ := receive_keeps h
  have hwrite : t.world.Keeps (t.world.write (.setCode a code)) := by
    apply Keeps.write
    intro b new e
    cases e
    rw [hsame, hcode]
  exact hkeeps.trans hwrite

theorem ledgerRule_keeps (config : Config) : LedgerRule config Keeps where
  refl := Keeps.refl
  trans := Keeps.trans
  command s r c _ _ _ := by
    rw [Scope.world_writeAll]
    exact Keeps.foldl (c.setCode_notMem_writes s)
  entry f r c s _ hs := by
    cases hs with
    | call call b code s hcode hmethod hstack hs => exact (Scope.receive_keeps hs).1
    | deploy d s hcode hstack hs =>
      obtain ⟨t, ht, rfl⟩ := Scope.forDeploy_ok hs
      exact Scope.install_keeps (s := f.scope.child d.address d.code d.amount) ht hcode

theorem Order.Entry.keeps {config : Config} {store : Store} {order : Order} {s : Scope Ledger}
    (h : Order.Entry config store store.ledger order s) : store.ledger.Keeps s.world := by
  cases h with
  | execute o b code s hcode hmethod hs => exact (Scope.receive_keeps hs).1
  | deploy o s hcode hs => exact Scope.install_keeps hs hcode

theorem Order.Entry.code_deployed {config : Config} {store : Store} {o : DeployOrder} {s : Scope Ledger}
    (h : Order.Entry config store store.ledger (.deploy o) s) : s.world.code o.address = some o.code := by
  cases h with
  | deploy o s hcode hs => exact Ledger.code_setCode_self o.address o.code

/-! ## Orders -/

@[simp] theorem FrameOutcome.success_tell {W : Type} (outcome : FrameOutcome W) (events : List Event)
    (deployed : Option Address) : (outcome.tell events deployed).success = outcome.record.success := by
  obtain ⟨world, stack, ⟨r, cs⟩⟩ := outcome
  rfl

@[simp] theorem FrameOutcome.gasUsed_tell {W : Type} (outcome : FrameOutcome W) (events : List Event)
    (deployed : Option Address) : (outcome.tell events deployed).gasUsed = outcome.record.gasUsed := by
  obtain ⟨world, stack, ⟨r, cs⟩⟩ := outcome
  rfl

@[simp] theorem FrameOutcome.output_tell {W : Type} (outcome : FrameOutcome W) (events : List Event)
    (deployed : Option Address) : (outcome.tell events deployed).output = outcome.record.label.result.output := by
  obtain ⟨world, stack, ⟨r, cs⟩⟩ := outcome
  rfl

namespace Host

theorem outermost_keeps (h : Host) (order : Order) (s : Scope Ledger) :
    s.world.Keeps (h.outermost order s).world :=
  (ledgerRule_keeps h.config).runFrame h.vm _ s h.stack _ _ _

/-- No order takes events or code away from the ledger. -/
theorem carryOut_keeps (h : Host) (store : Store) (order : Order) :
    store.ledger.Keeps (h.carryOut store order).store.ledger :=
  (ledgerRule_keeps h.config).carryOut fun _ _ hs => hs.keeps

/-- A store is as it was after an order that fails, and nothing is reported. After one that succeeds the log has got the
reported events, and a deployed code is where it is reported to be. -/
theorem carryOut_allOrNothing (h : Host) (store : Store) (order : Order) :
    let after := (h.carryOut store order).store
    match (h.carryOut store order).answer with
    | .error _ => after = store
    | .ok outcome =>
      (outcome.success = false → after = store ∧ outcome.events = [] ∧ outcome.deployed = none) ∧
      (outcome.success = true →
        after.ledger.events = store.ledger.events ++ outcome.events ∧
        outcome.deployed = order.deployed ∧
        ∀ o, order = .deploy o → after.ledger.code o.address = some o.code) := by
  have hend := h.carryOut_end store order
  have hkeeps := h.carryOut_keeps store order
  generalize h.carryOut store order = c at hend hkeeps ⊢
  cases hend with
  | barred e hcheck => rfl
  | rejected s reason hcheck hs hok hstore => rfl
  | refused why hcheck hscope => exact ⟨fun _ => ⟨rfl, rfl, rfl⟩, fun hok => absurd hok Bool.false_ne_true⟩
  | failed s hcheck hs hfail =>
    refine ⟨fun _ => ⟨rfl, rfl, rfl⟩, fun hok => ?_⟩
    rw [FrameOutcome.success_tell, hfail] at hok
    cases hok
  | committed s hcheck hs hok hstore =>
    have hevents : store.ledger.events ++ (h.outermost order s).world.events.drop store.ledger.events.length =
        (h.outermost order s).world.events := List.prefix_iff_eq_append.mp hkeeps.events
    refine ⟨fun hfail => ?_, fun _ => ⟨hevents.symm, rfl, ?_⟩⟩
    · rw [FrameOutcome.success_tell, hok] at hfail
      cases hfail
    · rintro o rfl
      exact (h.outermost_keeps _ s).code hs.code_deployed

end Host

end ContractHost
