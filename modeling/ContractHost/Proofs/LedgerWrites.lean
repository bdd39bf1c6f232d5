import ContractHost.Proofs.MapFold
import ContractHost.World
/-!
# Overlays as writes to a ledger

A ledger that takes over an overlay ends up as if the writes in it had been made on the ledger itself. So writing to an
overlay first and taking it over later is writing to the ledger that has taken it over (`apply_write`), and two overlays
can be folded into one before (`apply_merge`).
-/
namespace ContractHost

open OrderedMap

namespace Ledger

/-! ## Changes of accounts -/

theorem accountAt_modify_self (l : Ledger) (a : Address) (f : Account → Account) :
    (l.modify a f).accountAt a = f (l.accountAt a) := by
  simp [accountAt, account?, modify]

theorem accountAt_modify_of_ne (l : Ledger) {a b : Address} (f : Account → Account) (h : a ≠ b) :
    (l.modify a f).accountAt b = l.accountAt b := by
  simp [accountAt, account?, modify, get?_insert_of_ne, h]

theorem modify_modify (l : Ledger) (a : Address) (f g : Account → Account) :
    (l.modify a f).modify a g = l.modify a fun x => g (f x) := by
  have hself := l.accountAt_modify_self a f
  simp only [modify, insert_insert] at hself ⊢
  rw [hself]

theorem modify_comm (l : Ledger) {a b : Address} (f g : Account → Account) (h : a ≠ b) :
    (l.modify a f).modify b g = (l.modify b g).modify a f := by
  have hb := l.accountAt_modify_of_ne f h
  have ha := l.accountAt_modify_of_ne g h.symm
  simp only [modify] at ha hb ⊢
  rw [ha, hb, insert_comm _ _ _ h]

theorem modify_swap (l : Ledger) (a b : Address) {f g : Account → Account} (h : ∀ x, g (f x) = f (g x)) :
    (l.modify a f).modify b g = (l.modify b g).modify a f := by
  by_cases hab : a = b
  · subst hab
    rw [modify_modify, modify_modify]
    congr 1
    funext x
    exact h x
  · exact l.modify_comm f g hab

/-! ## The steps of taking over an overlay -/

theorem applyStorage_def (l : Ledger) (contract : Address) (key : Bytes) (value : Option Bytes) :
    l.applyStorage ((contract, key), value) =
      l.modify contract fun x => { x with storage := x.storage.assign key value } := by
  cases value <;> rfl

theorem overwrites_applyStorage : Overwrites applyStorage where
  again l k v w := by
    obtain ⟨contract, key⟩ := k
    simp only [applyStorage_def, modify_modify, assign_assign]
  swap l k k' v w h := by
    obtain ⟨contract, key⟩ := k
    obtain ⟨contract', key'⟩ := k'
    simp only [applyStorage_def]
    by_cases hc : contract = contract'
    · subst hc
      have hk : key ≠ key' := fun e => h (by rw [e])
      simp only [modify_modify, assign_comm _ _ _ hk]
    · exact l.modify_comm _ _ hc

def applyBalance (l : Ledger) (entry : Address × Amount) : Ledger :=
  l.setBalance entry.1 entry.2

def applyCode (l : Ledger) (entry : Address × Bytes) : Ledger :=
  l.setCode entry.1 entry.2

theorem applyBalance_def (l : Ledger) (e : Address × Amount) :
    l.applyBalance e = l.modify e.1 fun x => { x with balance := e.2 } :=
  rfl

theorem applyCode_def (l : Ledger) (e : Address × Bytes) :
    l.applyCode e = l.modify e.1 fun x => { x with code := some e.2 } :=
  rfl

theorem overwrites_applyBalance : Overwrites applyBalance where
  again l a v w := by simp only [applyBalance_def, modify_modify]
  swap l a b v w h := by
    simp only [applyBalance_def]
    exact l.modify_comm _ _ h

theorem overwrites_applyCode : Overwrites applyCode where
  again l a v w := by simp only [applyCode_def, modify_modify]
  swap l a b v w h := by
    simp only [applyCode_def]
    exact l.modify_comm _ _ h

def append (l : Ledger) (events : List Event) (burnt : Nat) : Ledger :=
  { l with events := l.events ++ events, burnt := l.burnt + burnt }

theorem apply_def (l : Ledger) (o : Overlay) :
    l.apply o =
      (o.codes.toList.foldl applyCode
        (o.balances.toList.foldl applyBalance (o.storage.toList.foldl applyStorage l))).append o.events o.burnt :=
  rfl

@[simp] theorem apply_empty (l : Ledger) : l.apply {} = l := by
  simp [apply_def, append, empty]

private theorem foldl_apply_hom {o : Overlay} {g : Ledger → Ledger}
    (hbalance : ∀ l e, applyBalance (g l) e = g (applyBalance l e))
    (hcode : ∀ l e, applyCode (g l) e = g (applyCode l e)) (l : Ledger) :
    o.codes.toList.foldl applyCode (o.balances.toList.foldl applyBalance (g l)) =
      g (o.codes.toList.foldl applyCode (o.balances.toList.foldl applyBalance l)) := by
  rw [List.foldl_hom g hbalance, List.foldl_hom g hcode]

theorem apply_assignStorage (l : Ledger) (o : Overlay) (contract : Address) (key : Bytes) (value : Option Bytes) :
    l.apply { o with storage := o.storage.insert (contract, key) value } =
      (l.apply o).applyStorage ((contract, key), value) := by
  have hbalance : ∀ l e, applyBalance (applyStorage l ((contract, key), value)) e =
      applyStorage (applyBalance l e) ((contract, key), value) := by
    intro l e
    simp only [applyStorage_def, applyBalance_def]
    exact l.modify_swap _ _ fun x => rfl
  have hcode : ∀ l e, applyCode (applyStorage l ((contract, key), value)) e =
      applyStorage (applyCode l e) ((contract, key), value) := by
    intro l e
    simp only [applyStorage_def, applyCode_def]
    exact l.modify_swap _ _ fun x => rfl
  rw [apply_def, overwrites_applyStorage.foldl_insert,
    foldl_apply_hom (g := fun l => applyStorage l ((contract, key), value)) hbalance hcode]
  cases value <;> rfl

/-- Writing to an overlay is writing to the ledger that has taken the overlay over. -/
theorem apply_write (l : Ledger) (o : Overlay) (x : Write) : l.apply (o.write x) = (l.apply o).write x := by
  cases x with
  | setStorage contract key value => exact l.apply_assignStorage o contract key (some value)
  | removeStorage contract key => exact l.apply_assignStorage o contract key none
  | setBalance a balance =>
    have hcode : ∀ l e, applyCode (applyBalance l (a, balance)) e = applyBalance (applyCode l e) (a, balance) := by
      intro l e
      simp only [applyBalance_def, applyCode_def]
      exact l.modify_swap _ _ fun x => rfl
    rw [Overlay.write, Overlay.setBalance, apply_def, overwrites_applyBalance.foldl_insert,
      List.foldl_hom (fun l => applyBalance l (a, balance)) hcode]
    rfl
  | setCode a code =>
    rw [Overlay.write, Overlay.setCode, apply_def, overwrites_applyCode.foldl_insert]
    rfl
  | pushEvent e =>
    simp only [Overlay.write, Overlay.pushEvent, write, pushEvent, apply_def, append, List.append_assoc]
  | addBurnt amount =>
    simp only [Overlay.write, Overlay.addBurnt, write, addBurnt, apply_def, append, Nat.add_assoc]

end Ledger

/-! ## Overlays as lists of writes -/

/-- The write that an entry of an overlay's storage stands for. -/
def Write.ofStorage : (Address × Bytes) × Option Bytes → Write
  | ((contract, key), some value) => .setStorage contract key value
  | ((contract, key), none) => .removeStorage contract key

/-- The writes that an overlay holds. -/
def Overlay.writes (o : Overlay) : List Write :=
  o.storage.toList.map Write.ofStorage ++ o.balances.toList.map (fun e => .setBalance e.1 e.2) ++
    o.codes.toList.map (fun e => .setCode e.1 e.2) ++ o.events.map .pushEvent ++ [.addBurnt o.burnt]

def Ledger.writeAll (l : Ledger) (ws : List Write) : Ledger :=
  ws.foldl Ledger.write l

theorem Ledger.apply_writeAll (l : Ledger) (o : Overlay) (ws : List Write) :
    l.apply (o.writeAll ws) = (l.apply o).writeAll ws := by
  induction ws generalizing o with
  | nil => rfl
  | cons x ws ih =>
    simp only [Overlay.writeAll, Ledger.writeAll, List.foldl_cons] at ih ⊢
    rw [ih, l.apply_write]

private theorem Ledger.foldl_pushEvent (l : Ledger) (es : List Event) :
    es.foldl Ledger.pushEvent l = { l with events := l.events ++ es } := by
  induction es generalizing l with
  | nil => simp
  | cons e es ih => simp [ih, Ledger.pushEvent]

theorem Ledger.apply_eq_writeAll (l : Ledger) (o : Overlay) : l.apply o = l.writeAll o.writes := by
  have hstorage : (fun l e => Ledger.write l (Write.ofStorage e)) = Ledger.applyStorage := by
    funext l e
    obtain ⟨⟨contract, key⟩, value⟩ := e
    cases value <;> rfl
  simp only [writeAll, Overlay.writes, List.foldl_append, List.foldl_map, List.foldl_cons, List.foldl_nil, hstorage]
  rw [apply_def]
  exact (congrArg (Ledger.addBurnt · o.burnt) (Ledger.foldl_pushEvent _ _)).symm

private theorem Overlay.foldl_storage (o : Overlay) (es : List ((Address × Bytes) × Option Bytes)) :
    es.foldl (fun o e => o.write (Write.ofStorage e)) o = { o with storage := o.storage.insertAll es } := by
  induction es generalizing o with
  | nil => rfl
  | cons e es ih =>
    obtain ⟨⟨contract, key⟩, value⟩ := e
    rw [List.foldl_cons, ih]
    cases value <;> rfl

private theorem Overlay.foldl_balances (o : Overlay) (es : List (Address × Amount)) :
    es.foldl (fun o e => o.write (.setBalance e.1 e.2)) o = { o with balances := o.balances.insertAll es } := by
  induction es generalizing o with
  | nil => rfl
  | cons e es ih =>
    rw [List.foldl_cons, ih]
    rfl

private theorem Overlay.foldl_codes (o : Overlay) (es : List (Address × Bytes)) :
    es.foldl (fun o e => o.write (.setCode e.1 e.2)) o = { o with codes := o.codes.insertAll es } := by
  induction es generalizing o with
  | nil => rfl
  | cons e es ih =>
    rw [List.foldl_cons, ih]
    rfl

private theorem Overlay.foldl_events (o : Overlay) (es : List Event) :
    es.foldl (fun o e => o.write (.pushEvent e)) o = { o with events := o.events ++ es } := by
  induction es generalizing o with
  | nil => simp
  | cons e es ih =>
    rw [List.foldl_cons, ih]
    simp [Overlay.write, Overlay.pushEvent]

theorem Overlay.merge_eq_writeAll (o later : Overlay) : o.merge later = o.writeAll later.writes := by
  simp only [Overlay.writeAll, Overlay.writes, List.foldl_append, List.foldl_map, Overlay.foldl_storage,
    Overlay.foldl_balances, Overlay.foldl_codes, Overlay.foldl_events, List.foldl_cons, List.foldl_nil]
  rfl

/-- Folding overlays into one before the ledger takes it over makes no difference. -/
theorem Ledger.apply_merge (l : Ledger) (o later : Overlay) : l.apply (o.merge later) = (l.apply o).apply later := by
  rw [Overlay.merge_eq_writeAll, Ledger.apply_writeAll, ← Ledger.apply_eq_writeAll]

/-! ## Look-ups after taking over an overlay -/

namespace Ledger

theorem storage_modify_of_ne (l : Ledger) {a contract : Address} (f : Account → Account) (key : Bytes)
    (h : a ≠ contract) : (l.modify a f).storage contract key = l.storage contract key := by
  rw [storage, accountAt_modify_of_ne _ _ h, storage]

private theorem foldl_field {ε : Type} {γ : Type} (look : Ledger → γ) (step : Ledger → ε → Ledger)
    (h : ∀ l e, look (step l e) = look l) (es : List ε) (l : Ledger) : look (es.foldl step l) = look l := by
  induction es generalizing l with
  | nil => rfl
  | cons e es ih => rw [List.foldl_cons, ih, h]

theorem field_modify {γ : Type} (field : Account → γ) (l : Ledger) (a b : Address) {f : Account → Account}
    (h : ∀ x, field (f x) = field x) : field ((l.modify a f).accountAt b) = field (l.accountAt b) := by
  by_cases hab : a = b
  · subst hab
    rw [accountAt_modify_self, h]
  · rw [accountAt_modify_of_ne _ _ hab]

theorem storage_apply (l : Ledger) (o : Overlay) (contract : Address) (key : Bytes) :
    (l.apply o).storage contract key = (o.storage? contract key).getD (l.storage contract key) := by
  have hcodes := foldl_field (fun l => l.storage contract key) applyCode
    (fun l e => congrArg (OrderedMap.get? · key) (l.field_modify Account.storage _ _ fun x => rfl)) o.codes.toList
  have hbalances := foldl_field (fun l => l.storage contract key) applyBalance
    (fun l e => congrArg (OrderedMap.get? · key) (l.field_modify Account.storage _ _ fun x => rfl)) o.balances.toList
  have hstorage := foldl_look applyStorage (fun l => l.storage contract key) (contract, key) id
    (fun l v => by simp [applyStorage_def, storage, accountAt_modify_self])
    (fun l k' v h => by
      obtain ⟨contract', key'⟩ := k'
      simp only [applyStorage_def]
      by_cases hc : contract' = contract
      · subst hc
        have hk : key' ≠ key := fun e => h (by rw [e])
        simp [storage, accountAt_modify_self, get?_assign_of_ne _ _ hk]
      · exact l.storage_modify_of_ne _ _ hc) o.storage l
  calc (l.apply o).storage contract key
      = (o.storage.toList.foldl applyStorage l).storage contract key := (hcodes _).trans (hbalances _)
    _ = (o.storage? contract key).getD (l.storage contract key) := by simpa [Overlay.storage?] using hstorage

theorem balance_apply (l : Ledger) (o : Overlay) (a : Address) :
    (l.apply o).balance a = (o.balance? a).getD (l.balance a) := by
  have hcodes := foldl_field (fun l => l.balance a) applyCode
    (fun l e => l.field_modify Account.balance _ _ fun x => rfl) o.codes.toList
  have hbalances := foldl_look applyBalance (fun l => l.balance a) a id
    (fun l v => by simp [applyBalance, setBalance, balance, accountAt_modify_self])
    (fun l b v h => by simp [applyBalance, setBalance, balance, accountAt_modify_of_ne _ _ h]) o.balances
  have hstorage := foldl_field (fun l => l.balance a) applyStorage
    (fun l e => by
      obtain ⟨⟨contract, key⟩, value⟩ := e
      rw [applyStorage_def]
      exact l.field_modify Account.balance _ _ fun x => rfl) o.storage.toList l
  calc (l.apply o).balance a
      = (o.balances.toList.foldl applyBalance (o.storage.toList.foldl applyStorage l)).balance a := hcodes _
    _ = (o.balance? a).getD (l.balance a) := by
      simpa [hstorage, Overlay.balance?] using hbalances (o.storage.toList.foldl applyStorage l)

theorem code_apply (l : Ledger) (o : Overlay) (a : Address) :
    (l.apply o).code a = (o.code? a).or (l.code a) := by
  have hcodes := foldl_look applyCode (fun l => l.code a) a some
    (fun l v => by simp [applyCode, setCode, code, accountAt_modify_self])
    (fun l b v h => by simp [applyCode, setCode, code, accountAt_modify_of_ne _ _ h]) o.codes
  have hbalances := foldl_field (fun l => l.code a) applyBalance
    (fun l e => l.field_modify Account.code _ _ fun x => rfl) o.balances.toList
  have hstorage := foldl_field (fun l => l.code a) applyStorage
    (fun l e => by
      obtain ⟨⟨contract, key⟩, value⟩ := e
      rw [applyStorage_def]
      exact l.field_modify Account.code _ _ fun x => rfl) o.storage.toList l
  calc (l.apply o).code a
      = (o.codes.toList.foldl applyCode
          (o.balances.toList.foldl applyBalance (o.storage.toList.foldl applyStorage l))).code a := rfl
    _ = (o.code? a).or (l.code a) := by
      rw [hcodes, hbalances, hstorage]
      cases h : o.codes.get? a <;> simp [Overlay.code?, h]

private theorem foldl_untouched {γ : Type} (look : Ledger → γ) (h : ∀ l a f, look (l.modify a f) = look l) (l : Ledger)
    (o : Overlay) :
    look (o.codes.toList.foldl applyCode
      (o.balances.toList.foldl applyBalance (o.storage.toList.foldl applyStorage l))) = look l := by
  have hcodes := foldl_field look applyCode (fun l e => by rw [applyCode_def, h]) o.codes.toList
  have hbalances := foldl_field look applyBalance (fun l e => by rw [applyBalance_def, h]) o.balances.toList
  have hstorage := foldl_field look applyStorage
    (fun l e => by
      obtain ⟨⟨contract, key⟩, value⟩ := e
      rw [applyStorage_def, h]) o.storage.toList l
  rw [hcodes, hbalances, hstorage]

theorem events_apply (l : Ledger) (o : Overlay) : (l.apply o).events = l.events ++ o.events := by
  rw [apply_def, append, foldl_untouched Ledger.events (fun _ _ _ => rfl)]

theorem burnt_apply (l : Ledger) (o : Overlay) : (l.apply o).burnt = l.burnt + o.burnt := by
  rw [apply_def, append, foldl_untouched Ledger.burnt (fun _ _ _ => rfl)]

end Ledger

end ContractHost
