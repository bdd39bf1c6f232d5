import ContractHost.Proofs.Flow
import ContractHost.Proofs.Refinement
/-!
# What an order can reach

Only the contracts of committed frames lose anything: the storage and the code of every other address stay, and its
balance does not go down. The account that gives the order is the exception, since it pays for the outermost frame.
Facts about the chain and identities stay at all addresses.
-/
namespace ContractHost

/-! ## The contracts of committed frames -/

def FrameRecord.contract? (r : FrameRecord) : Option Address :=
  r.passage.map Passage.contract

namespace CallRecord

def contracts (t : CallRecord) : List Address :=
  t.committed.filterMap FrameRecord.contract?

/-- The contracts of the committed frames of call trees next to each other. -/
def contractsAll (ts : List CallRecord) : List Address :=
  (committedAll ts).filterMap FrameRecord.contract?

theorem contractsAll_append (ts : List CallRecord) (t : CallRecord) :
    contractsAll (ts ++ [t]) = contractsAll ts ++ t.contracts := by
  simp only [contractsAll, contracts, committedAll_append, List.filterMap_append]

theorem contracts_of_success {r : FrameRecord} {below : List CallRecord} (h : r.result.success) {p : Passage}
    (hp : r.passage = some p) : contracts (.node r below) = p.contract :: contractsAll below := by
  have hcontract : r.contract? = some p.contract := by rw [FrameRecord.contract?, hp, Option.map_some]
  simp only [contracts, committed, h, if_true, List.filterMap_cons, hcontract, contractsAll]

end CallRecord

def Completion.contracts (c : Completion) : List Address :=
  (c.record.map CallRecord.contracts).getD []

/-! ## Changes of a ledger -/

/-- What each address pays if one of them pays an amount. -/
def payment (payer : Address) (amount : Nat) (a : Address) : Nat :=
  if a = payer then amount else 0

def Write.target? : Write → Option Address
  | .setStorage contract _ _ => some contract
  | .removeStorage contract _ => some contract
  | .setBalance a _ => some a
  | .setCode a _ => some a
  | .pushEvent _ => none
  | .addBurnt _ => none

namespace Ledger

/-- What a later ledger has of an earlier one outside some addresses. No balance there is lower than before, but for
what the address has paid. -/
structure Spares (reached : List Address) (paid : Address → Nat) (l l' : Ledger) : Prop where
  storage : ∀ a, a ∉ reached → ∀ key, l'.storage a key = l.storage a key
  code : ∀ a, a ∉ reached → l'.code a = l.code a
  balance : ∀ a, a ∉ reached → l.balance a ≤ l'.balance a + paid a
  chain : l'.chain = l.chain
  identityState : ∀ a, l'.identityState a = l.identityState a
  identity : ∀ a, l'.identity a = l.identity a

/-- A later ledger in which no address outside of the reached ones has less than before. -/
abbrev Leaves (reached : List Address) (l l' : Ledger) : Prop :=
  Spares reached (fun _ => 0) l l'

variable {reached : List Address} {paid : Address → Nat} {l l' l'' : Ledger}

theorem Spares.refl (reached : List Address) (paid : Address → Nat) (l : Ledger) : l.Spares reached paid l where
  storage _ _ _ := rfl
  code _ _ := rfl
  balance _ _ := Nat.le_add_right _ _
  chain := rfl
  identityState _ := rfl
  identity _ := rfl

theorem Spares.trans (h : l.Spares reached paid l') (h' : l'.Leaves reached l'') : l.Spares reached paid l'' where
  storage a ha key := (h'.storage a ha key).trans (h.storage a ha key)
  code a ha := (h'.code a ha).trans (h.code a ha)
  balance a ha :=
    calc l.balance a
        ≤ l'.balance a + paid a := h.balance a ha
      _ ≤ l''.balance a + paid a := Nat.add_le_add_right (h'.balance a ha) _
  chain := h'.chain.trans h.chain
  identityState a := (h'.identityState a).trans (h.identityState a)
  identity a := (h'.identity a).trans (h.identity a)

theorem Spares.mono {wider : List Address} (h : l.Spares reached paid l') (hsub : reached ⊆ wider) :
    l.Spares wider paid l' where
  storage a ha := h.storage a fun hmem => ha (hsub hmem)
  code a ha := h.code a fun hmem => ha (hsub hmem)
  balance a ha := h.balance a fun hmem => ha (hsub hmem)
  chain := h.chain
  identityState := h.identityState
  identity := h.identity

theorem Spares.leaves {payer : Address} {amount : Nat} (h : l.Spares reached (payment payer amount) l')
    (hpayer : payer ∈ reached) : l.Leaves reached l' where
  storage := h.storage
  code := h.code
  balance a ha := by
    have hne : a ≠ payer := by
      rintro rfl
      exact ha hpayer
    have hpaid := h.balance a ha
    rw [payment, if_neg hne] at hpaid
    exact hpaid
  chain := h.chain
  identityState := h.identityState
  identity := h.identity

theorem Spares.modify {a : Address} {f : Account → Account}
    (hstate : ∀ x, (f x).identityState = x.identityState) (hidentity : ∀ x, (f x).identity = x.identity)
    (hspared : a ∉ reached → (∀ x, (f x).storage = x.storage) ∧ (∀ x, (f x).code = x.code) ∧
      l.balance a ≤ (f (l.accountAt a)).balance + paid a) :
    l.Spares reached paid (l.modify a f) where
  storage b hb key := by
    by_cases hab : a = b
    · subst hab
      obtain ⟨hstorage, -, -⟩ := hspared hb
      rw [Ledger.storage, accountAt_modify_self, hstorage, Ledger.storage]
    · exact l.storage_modify_of_ne f key hab
  code b hb := by
    by_cases hab : a = b
    · subst hab
      obtain ⟨-, hcode, -⟩ := hspared hb
      rw [Ledger.code, accountAt_modify_self, hcode, Ledger.code]
    · rw [Ledger.code, l.accountAt_modify_of_ne f hab, Ledger.code]
  balance b hb := by
    by_cases hab : a = b
    · subst hab
      obtain ⟨-, -, hbalance⟩ := hspared hb
      have hafter : (l.modify a f).balance a = (f (l.accountAt a)).balance := by
        rw [Ledger.balance, accountAt_modify_self]
      rw [hafter]
      exact hbalance
    · have hafter : (l.modify a f).balance b = l.balance b := by
        rw [Ledger.balance, l.accountAt_modify_of_ne f hab, Ledger.balance]
      rw [hafter]
      exact Nat.le_add_right _ _
  chain := rfl
  identityState b := l.field_modify Account.identityState a b hstate
  identity b := l.field_modify Account.identity a b hidentity

theorem Spares.setBalance {a : Address} {balance : Nat} (h : l.balance a ≤ balance + paid a) :
    l.Spares reached paid (l.write (.setBalance a balance)) :=
  Spares.modify (f := fun x => { x with balance }) (fun _ => rfl) (fun _ => rfl)
    fun _ => ⟨fun _ => rfl, fun _ => rfl, h⟩

theorem write_modifies {x : Write} {a : Address} (h : x.target? = some a) :
    ∃ f : Account → Account, l.write x = l.modify a f ∧
      ∀ y, (f y).identityState = y.identityState ∧ (f y).identity = y.identity := by
  cases x with
  | setStorage contract key value =>
    cases h
    exact ⟨fun y => { y with storage := y.storage.insert key value }, rfl, fun _ => ⟨rfl, rfl⟩⟩
  | removeStorage contract key =>
    cases h
    exact ⟨fun y => { y with storage := y.storage.erase key }, rfl, fun _ => ⟨rfl, rfl⟩⟩
  | setBalance b balance =>
    cases h
    exact ⟨fun y => { y with balance }, rfl, fun _ => ⟨rfl, rfl⟩⟩
  | setCode b code =>
    cases h
    exact ⟨fun y => { y with code := some code }, rfl, fun _ => ⟨rfl, rfl⟩⟩
  | pushEvent e => cases h
  | addBurnt amount => cases h

theorem Spares.write_of_mem {x : Write} {a : Address} (h : x.target? = some a) (ha : a ∈ reached) :
    l.Spares reached paid (l.write x) := by
  obtain ⟨f, hwrite, hidentity⟩ := l.write_modifies h
  rw [hwrite]
  exact Spares.modify (fun y => (hidentity y).1) (fun y => (hidentity y).2) fun hnot => absurd ha hnot

theorem Spares.write_of_none {x : Write} (h : x.target? = none) : l.Spares reached paid (l.write x) := by
  cases x with
  | pushEvent e => exact { Spares.refl reached paid l with }
  | addBurnt amount => exact { Spares.refl reached paid l with }
  | _ => cases h

end Ledger

open Ledger (Spares Leaves)

namespace Scope

variable {s t : Scope Ledger} {reached : List Address}

theorem spares_transfer {payer : Address} (payee : Address) {amount : Nat} (h : amount ≤ s.balance payer) :
    s.world.Spares reached (payment payer amount) (s.writeAll (s.transfer payer payee amount)).world := by
  let paid := s.world.write (.setBalance payer (s.balance payer - amount))
  have htaken : s.world.Spares reached (payment payer amount) paid := by
    apply Spares.setBalance
    rw [payment, if_pos rfl, Nat.sub_add_cancel h]
    exact Nat.le_refl _
  have hgiven : paid.Leaves reached (paid.write (.setBalance payee (paid.balance payee + amount))) :=
    Spares.setBalance (Nat.le_add_right _ amount)
  rw [world_writeAll]
  exact htaken.trans hgiven

theorem spares_receive {sender : Address} {amount : Nat} (h : s.receive sender amount = .ok t) :
    s.world.Spares reached (payment sender amount) t.world := by
  rcases receive_ok h with ⟨_, rfl⟩ | ⟨_, hfunds, rfl⟩
  · exact .refl _ _ _
  · exact spares_transfer s.own.contract hfunds

/-- A command without a nested frame takes nothing from any contract but its own. -/
theorem leaves_command (hown : s.own.contract ∈ reached) {c : Command} (h : c.spends ≤ s.ownBalance) :
    s.world.Leaves reached (s.writeAll (c.writes s)).world := by
  rw [world_writeAll]
  cases c with
  | setStorage key value => exact Spares.write_of_mem (x := .setStorage s.own.contract key value) rfl hown
  | removeStorage key => exact Spares.write_of_mem (x := .removeStorage s.own.contract key) rfl hown
  | event name args => exact Spares.write_of_none (x := .pushEvent { contract := s.own.contract, name, args }) rfl
  | debit amount =>
    exact Spares.write_of_mem (x := .setBalance s.own.contract (s.ownBalance - amount)) rfl hown
  | credit payee amount => exact Spares.setBalance (Nat.le_add_right _ amount)
  | burn amount =>
    let taken := Write.setBalance s.own.contract (s.ownBalance - amount)
    have htaken : s.world.Leaves reached (s.world.write taken) := Spares.write_of_mem rfl hown
    exact htaken.trans (Spares.write_of_none (x := .addBurnt amount) rfl)
  | send payee amount =>
    have hsent : s.world.Spares reached _ (s.writeAll (s.transfer s.own.contract payee amount)).world :=
      spares_transfer payee h
    rw [world_writeAll] at hsent
    exact hsent.leaves hown
  | _ => exact .refl _ _ _

end Scope

/-! ## Frames -/

open CallRecord (contractsAll)

/-- A frame that has succeeded has taken nothing from any address but the contracts of the committed frames. -/
def FrameOutcome.Leaves (s : Scope Ledger) (outcome : FrameOutcome Ledger) : Prop :=
  outcome.record.success → s.own.contract ∈ outcome.record.contracts ∧
    s.world.Leaves outcome.record.contracts outcome.world

namespace Frame

/-- A frame that was started in a scope and has reached its own contract and those of its committed children. -/
structure Reaching (s : Scope Ledger) (f : Frame Ledger) : Prop where
  own : f.scope.own = s.own
  leaves : s.world.Leaves (s.own.contract :: contractsAll f.children) f.scope.world

variable {s : Scope Ledger} {f g : Frame Ledger} {config : Config} {run : Runner Ledger}

theorem Entry.leaves {c : Command} {t : Scope Ledger} (h : f.Entry c t) :
    f.scope.world.Leaves [f.scope.own.contract, t.own.contract] t.world := by
  have hpayer : f.scope.own.contract ∈ [f.scope.own.contract, t.own.contract] := List.mem_cons_self
  cases h with
  | call call b code t hcode hmethod hstack hs =>
    exact (Scope.spares_receive (s := f.scope.child call.target (b :: code) call.amount) hs).leaves hpayer
  | deploy d t hcode hstack hs =>
    obtain ⟨u, hu, rfl⟩ := Scope.forDeploy_ok hs
    have htarget : u.own.contract = d.address := Scope.receive_contract hu
    have hpaid : f.scope.world.Leaves [f.scope.own.contract, u.own.contract] u.world :=
      (Scope.spares_receive (s := f.scope.child d.address d.code d.amount) hu).leaves hpayer
    have hmem : d.address ∈ [f.scope.own.contract, u.own.contract] := by
      rw [htarget]
      exact List.mem_cons_of_mem _ List.mem_cons_self
    exact hpaid.trans (Spares.write_of_mem (x := .setCode d.address d.code) rfl hmem)

theorem Reaching.same (h : f.Reaching s) (hown : g.scope.own = f.scope.own) (hchildren : g.children = f.children)
    (hworld : f.scope.world.Leaves (s.own.contract :: contractsAll f.children) g.scope.world) : g.Reaching s where
  own := hown.trans h.own
  leaves := by
    rw [hchildren]
    exact h.leaves.trans hworld

theorem Reaching.nest (h : f.Reaching s) (hown : g.scope.own = f.scope.own) {t : CallRecord}
    (hchildren : g.children = f.children ++ [t])
    (hworld : f.scope.world.Leaves (f.scope.own.contract :: t.contracts) g.scope.world) : g.Reaching s where
  own := hown.trans h.own
  leaves := by
    rw [h.own] at hworld
    rw [hchildren, CallRecord.contractsAll_append, ← List.cons_append]
    have hbefore := h.leaves.mono (List.subset_append_left _ t.contracts)
    apply hbefore.trans
    apply hworld.mono
    intro a ha
    rcases List.mem_cons.mp ha with rfl | ha
    · exact List.mem_append_left _ List.mem_cons_self
    · exact List.mem_append_right _ ha

theorem Reaching.move (hrun : ∀ s stack i amount gas, (run s stack i amount gas).Leaves s) (h : f.Reaching s)
    {c : Command} {out : Except HostError Settled × Frame Ledger} (hmove : f.Move config run c out) :
    out.2.Reaching s := by
  cases hmove with
  | done v hc hfunds =>
    apply h.same (g := f.written c) (Scope.own_writeAll _ _) rfl
    apply Scope.leaves_command _ hfunds
    rw [h.own]
    exact List.mem_cons_self
  | failed e hc => exact h.same (g := f.charged c) rfl rfl (.refl _ _ _)
  | refused n why hc =>
    let action := n.invocation.action n.amount (Gas.least n.gas f.meter.remaining)
    let t := CallRecord.refused config.maxArgsLength.toNat action why
    have hscope : (f.record t).2.scope = f.scope := record_scope f t
    apply h.nest (g := (f.record t).2) (congrArg Scope.own hscope) (record_children f t)
    rw [hscope]
    exact .refl _ _ _
  | ran n t hc ht =>
    let outcome := run t f.stack n.invocation n.amount (Gas.least n.gas f.meter.remaining)
    let recorded := (f.resume outcome).record outcome.record
    have hscope : recorded.2.scope = (f.resume outcome).scope := record_scope _ _
    by_cases hok : outcome.record.success
    · obtain ⟨htarget, hbelow⟩ := hrun t f.stack n.invocation n.amount (Gas.least n.gas f.meter.remaining) hok
      have hresume : (f.resume outcome).scope = f.scope.join outcome.world := by rw [resume, if_pos hok]
      have hown : recorded.2.scope.own = f.scope.own := by
        rw [hscope, hresume]
        rfl
      apply h.nest (g := recorded.2) hown (record_children _ _)
      rw [hscope, hresume]
      have hentered : f.scope.world.Leaves (f.scope.own.contract :: outcome.record.contracts) t.world := by
        apply ht.leaves.mono
        intro a ha
        rcases List.mem_cons.mp ha with rfl | ha
        · exact List.mem_cons_self
        · rw [List.mem_singleton.mp ha]
          exact List.mem_cons_of_mem _ htarget
      exact hentered.trans (hbelow.mono (List.subset_cons_self _ _))
    · -- The ledger of a frame that fails is dropped, with all that the frame has taken from anybody.
      have hresume : (f.resume outcome).scope = f.scope := by rw [resume, if_neg hok]
      rw [hresume] at hscope
      apply h.nest (g := recorded.2) (congrArg Scope.own hscope) (record_children _ _)
      rw [hscope]
      exact .refl _ _ _

theorem play_reaching (hrun : ∀ s stack i amount gas, (run s stack i amount gas).Leaves s) {α : Type} (p : Program α)
    (h : f.Reaching s) : (play config run p f).2.2.Reaching s := by
  refine play_induct (P := fun _ g => g.Reaching s) ?_ ?_ p [] f h
  · intro _ g r e hg _
    obtain ⟨b, hb⟩ := exchange_frame g r (.error e, g)
    rw [hb]
    exact ⟨hg.own, hg.leaves⟩
  · intro _ g r c out hg _ hmove
    obtain ⟨b, hb⟩ := exchange_frame g r out
    have hout := hg.move hrun hmove
    rw [hb]
    exact ⟨hout.own, hout.leaves⟩

end Frame

theorem runFrame_leaves (vm : Vm) (config : Config) (room : Nat) (s : Scope Ledger) (stack : CallStack) (i : Invocation)
    (amount : Amount) (gas : Gas) : (runFrame vm config room s stack i amount gas).Leaves s := by
  refine runFrame_induct (P := fun s _ _ _ _ outcome => outcome.Leaves s) ?_ ?_ room s stack i amount gas
  · intro s stack i amount gas e hok
    cases hok
  · intro run hrun s stack i amount gas entered _ hok
    have hstart : (Frame.start s entered gas).Reaching s := ⟨rfl, .refl _ _ _⟩
    let played := Frame.play config run (vm.program i s.own.code gas) (.start s entered gas)
    have hplay : played.2.2.Reaching s := Frame.play_reaching hrun _ hstart
    have hcontracts : (runEntered vm config run entered s stack i amount gas).record.contracts =
        s.own.contract :: contractsAll played.2.2.children := CallRecord.contracts_of_success hok rfl
    rw [hcontracts]
    exact ⟨List.mem_cons_self, hplay.leaves⟩

/-! ## Orders -/

theorem Order.Entry.spares {config : Config} {store : Store} {order : Order} {s : Scope Ledger}
    (h : Order.Entry config store store.ledger order s) :
    store.ledger.Spares [s.own.contract] (payment order.caller order.amount) s.world := by
  cases h with
  | execute o b code s hcode hmethod hs => exact Scope.spares_receive hs
  | deploy o s hcode hs =>
    have htarget : s.own.contract = o.address := Scope.receive_contract hs
    have hmem : o.address ∈ [s.own.contract] := by
      rw [htarget]
      exact List.mem_cons_self
    exact (Scope.spares_receive hs).trans (Spares.write_of_mem (x := .setCode o.address o.code) rfl hmem)

/-- An order keeps the storage and the code of every address but the contracts of its committed frames, and takes
nothing from the others but the payment from the account that gives it. Facts about the chain and identities stay. -/
theorem Host.carryOut_spares (h : Host) (store : Store) (order : Order) :
    store.ledger.Spares (h.carryOut store order).contracts
      (fun a => if a = order.caller then order.amount else 0) (h.carryOut store order).store.ledger := by
  have hend := h.carryOut_end store order
  generalize h.carryOut store order = c at hend ⊢
  cases hend with
  | barred e hcheck => exact .refl _ _ _
  | refused why hcheck hscope => exact .refl _ _ _
  | failed s hcheck hs hfail => exact .refl _ _ _
  | rejected s reason hcheck hs hok hstore => exact .refl _ _ _
  | committed s hcheck hs hok hstore =>
    obtain ⟨hown, hrun⟩ := runFrame_leaves h.vm h.config h.config.maxCallDepth.toNat s h.stack order.invocation
      order.amount order.gasLimit hok
    have hentry := hs.spares.mono (List.cons_subset.mpr ⟨hown, List.nil_subset _⟩)
    exact hentry.trans hrun

end ContractHost
