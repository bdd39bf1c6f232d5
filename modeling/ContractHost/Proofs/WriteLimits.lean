import ContractHost.Proofs.Atomicity
import ContractHost.Proofs.NormalForms
/-!
# Sizes of what reaches the ledger

Whatever a run adds to a ledger has passed the limits on inputs: the storage entries that it adds or changes, the codes
that it installs and the events that it reports. A storage entry or a code is as long as the input it was read from. An
event has the arguments that its packed list holds, which are together no longer than the list.

Code that an order brings along to be run in place of a contract's own is not limited, but it is never installed.
-/
namespace ContractHost

/-! ## Packed arguments -/

namespace Wire

theorem keeps_argumentStep (depth : Nat) :
    Keeps (fun args => args.flatten.length) (fun _ => True) (argumentStep depth) := by
  intro k args args' input rest h _
  refine ⟨trivial, ?_⟩
  rw [argumentStep] at h
  split at h
  · obtain ⟨b, hread, rfl⟩ := field_ok (fun b => args ++ [b]) h
    have hsize := byteString_size hread
    simp only [List.flatten_append, List.flatten_singleton, List.length_append]
    omega
  · obtain ⟨rfl, hsize⟩ := ignore_ok h
    omega

end Wire

theorem Arguments.length_flatten_unpack_le (packed : Bytes) : (unpack packed).flatten.length ≤ packed.length := by
  rw [unpack]
  split
  case h_2 => exact Nat.zero_le _
  case h_1 args hargs =>
    cases packed with
    | nil =>
      cases hargs
      exact Nat.zero_le _
    | cons tag payload =>
      obtain ⟨form, -, hargs⟩ := bind_ok hargs
      cases form with
      | plain =>
        cases hargs
        simp
      | structured =>
        obtain ⟨-, hsize⟩ := (Wire.keeps_argumentStep Wire.maxDepth).record (mapError_ok hargs) trivial
        simp only [List.flatten_nil, List.length_nil, Nat.zero_add] at hsize
        exact Nat.le_succ_of_le hsize

/-! ## Writes within the limits -/

structure Event.Within (limits : InputLimits) (e : Event) : Prop where
  name : (Bytes.ofText e.name).length ≤ limits.text.toNat
  args : e.args.flatten.length ≤ limits.args.toNat

def Write.Within (limits : InputLimits) : Write → Prop
  | .setStorage _ key value => key.length ≤ limits.storageKey.toNat ∧ value.length ≤ limits.storageValue.toNat
  | .setCode _ code => code.length ≤ limits.code.toNat
  | .pushEvent e => e.Within limits
  | .removeStorage _ _ | .setBalance _ _ | .addBurnt _ => True

/-- A later ledger in which all that is new or was changed is within the limits. -/
structure Ledger.GrownWithin (limits : InputLimits) (l l' : Ledger) : Prop where
  storage : ∀ {contract key value}, l'.storage contract key = some value →
    l.storage contract key = some value ∨
      key.length ≤ limits.storageKey.toNat ∧ value.length ≤ limits.storageValue.toNat
  code : ∀ {a code}, l'.code a = some code → l.code a = some code ∨ code.length ≤ limits.code.toNat
  events : ∃ new, l'.events = l.events ++ new ∧ ∀ e ∈ new, e.Within limits

namespace Ledger

variable {l l' l'' : Ledger} {limits : InputLimits}

/-- A storage entry after a write was there before or is what was written. -/
theorem storage_write {x : Write} {contract : Address} {key value : Bytes}
    (h : (l.write x).storage contract key = some value) :
    l.storage contract key = some value ∨ x = .setStorage contract key value := by
  have hsame {a : Address} {f : Account → Account} (hf : ∀ y, (f y).storage = y.storage) :
      (l.modify a f).storage contract key = l.storage contract key :=
    congrArg (OrderedMap.get? · key) (l.field_modify Account.storage a contract hf)
  cases x with
  | setStorage a k v =>
    by_cases ha : a = contract
    · subst ha
      simp only [write, setStorage, storage, accountAt_modify_self] at h
      by_cases hk : k = key
      · subst hk
        rw [OrderedMap.get?_insert_self] at h
        cases h
        exact .inr rfl
      · rw [OrderedMap.get?_insert_of_ne _ _ hk] at h
        exact .inl h
    · rw [write, setStorage, storage_modify_of_ne _ _ _ ha] at h
      exact .inl h
  | removeStorage a k =>
    by_cases ha : a = contract
    · subst ha
      simp only [write, removeStorage, storage, accountAt_modify_self] at h
      by_cases hk : k = key
      · subst hk
        rw [OrderedMap.get?_erase_self] at h
        cases h
      · rw [OrderedMap.get?_erase_of_ne _ hk] at h
        exact .inl h
    · rw [write, removeStorage, storage_modify_of_ne _ _ _ ha] at h
      exact .inl h
  | setBalance a balance | setCode a code => exact .inl ((hsame (by intro y; rfl)).symm.trans h)
  | pushEvent e => exact .inl h
  | addBurnt amount => exact .inl h

theorem code_write {x : Write} {a : Address} {code : Bytes} (h : (l.write x).code a = some code) :
    l.code a = some code ∨ x = .setCode a code := by
  by_cases hset : ∃ b new, x = .setCode b new
  · obtain ⟨b, new, rfl⟩ := hset
    by_cases hb : b = a
    · subst hb
      rw [code_setCode_self] at h
      cases h
      exact .inr rfl
    · rw [code_setCode_of_ne new hb] at h
      exact .inl h
  · rw [code_write_of_ne fun b new e => hset ⟨b, new, e⟩] at h
    exact .inl h

theorem GrownWithin.refl (limits : InputLimits) (l : Ledger) : l.GrownWithin limits l where
  storage := .inl
  code := .inl
  events := ⟨[], (List.append_nil _).symm, fun _ he => absurd he List.not_mem_nil⟩

theorem GrownWithin.trans (h : l.GrownWithin limits l') (h' : l'.GrownWithin limits l'') :
    l.GrownWithin limits l'' where
  storage hvalue := (h'.storage hvalue).elim h.storage .inr
  code hcode := (h'.code hcode).elim h.code .inr
  events := by
    obtain ⟨new, hevents, hnew⟩ := h.events
    obtain ⟨newer, hlater, hnewer⟩ := h'.events
    refine ⟨new ++ newer, by rw [hlater, hevents, List.append_assoc], ?_⟩
    intro e he
    exact (List.mem_append.mp he).elim (hnew e) (hnewer e)

theorem GrownWithin.write {x : Write} (hx : x.Within limits) : l.GrownWithin limits (l.write x) where
  storage hvalue := by
    rcases storage_write hvalue with hbefore | rfl
    · exact .inl hbefore
    · exact .inr hx
  code hcode := by
    rcases code_write hcode with hbefore | rfl
    · exact .inl hbefore
    · exact .inr hx
  events := by
    cases x with
    | pushEvent e => exact ⟨[e], rfl, fun e' he => List.mem_singleton.mp he ▸ hx⟩
    | _ => exact (GrownWithin.refl limits l).events

theorem GrownWithin.writeAll {ws : List Write} (hws : ∀ x ∈ ws, x.Within limits) :
    l.GrownWithin limits (ws.foldl Ledger.write l) := by
  induction ws generalizing l with
  | nil => exact .refl limits l
  | cons x ws ih =>
    obtain ⟨hx, hws⟩ := List.forall_mem_cons.mp hws
    exact (GrownWithin.write hx).trans (ih hws)

end Ledger

/-! ## Commands and entries -/

variable {limits : InputLimits}

theorem Scope.transfer_within {W : Type} [World W] (s : Scope W) (payer payee : Address) (amount : Nat) :
    ∀ x ∈ s.transfer payer payee amount, x.Within limits := by
  simp [transfer, Write.Within]

/-- A command writes only what was read from inputs within the limits. -/
theorem Request.writes_within {W : Type} [World W] {s : Scope W} {self : Address} {r : Request} {c : Command}
    (h : r.check limits self = .ok c) : ∀ x ∈ c.writes s, x.Within limits := by
  cases check_reads h with
  | setStorage hkey hvalue =>
    have hsizes := And.intro (Input.requireBytes_ok hkey).2 (Input.bytes_ok hvalue).2
    simpa [Command.writes, Write.Within] using hsizes
  | event hname hargs =>
    have hpacked := (Input.bytes_ok hargs).2
    have hunpacked := Nat.le_trans (Arguments.length_flatten_unpack_le _) hpacked
    simpa [Command.writes, Write.Within] using Event.Within.mk (Input.text_ok hname).2 hunpacked
  | send hpayee hamount => exact s.transfer_within _ _ _
  | _ => simp [Command.writes, Write.Within]

theorem Scope.receive_within {s t : Scope Ledger} {sender : Address} {amount : Nat}
    (h : s.receive sender amount = .ok t) : s.world.GrownWithin limits t.world := by
  rcases receive_ok h with ⟨-, rfl⟩ | ⟨-, -, rfl⟩
  · exact .refl limits _
  · simp only [world_writeAll]
    exact .writeAll (s.transfer_within _ _ _)

theorem Scope.install_within {s t : Scope Ledger} {sender a : Address} {amount : Nat} {code : Bytes}
    (h : s.receive sender amount = .ok t) (hcode : code.length ≤ limits.code.toNat) :
    s.world.GrownWithin limits (t.write (.setCode a code)).world :=
  (receive_within h).trans (.write (x := .setCode a code) hcode)

theorem ledgerRule_within (config : Config) : LedgerRule config (Ledger.GrownWithin config.limits) where
  refl := .refl config.limits
  trans := .trans
  command s r c hcheck _ _ := by
    rw [Scope.world_writeAll]
    exact .writeAll (Request.writes_within hcheck)
  entry f r c s hcheck hs := by
    cases hs with
    | call call b code s hcode hmethod hstack hs =>
      exact Scope.receive_within (s := f.scope.child call.target (b :: code) call.amount) hs
    | deploy d s hcode hstack hs =>
      obtain ⟨t, ht, rfl⟩ := Scope.forDeploy_ok hs
      cases Request.check_reads hcheck with
      | deploy himage =>
        exact Scope.install_within (s := f.scope.child d.address d.code d.amount) ht (Input.requireBytes_ok himage).2

theorem DeployOrder.length_code {o : DeployOrder} (h : o.check limits = .ok ()) :
    o.code.length ≤ limits.code.toNat := by
  rw [check] at h
  split at h
  · cases h
  · obtain ⟨_, hcode, -⟩ := bind_ok h
    exact Input.check_ok hcode

theorem Order.Entry.within {config : Config} {store : Store} {order : Order} {s : Scope Ledger}
    (hcheck : order.check config.limits = .ok ()) (h : Order.Entry config store store.ledger order s) :
    store.ledger.GrownWithin config.limits s.world := by
  cases h with
  | execute o b code s hcode hmethod hs => exact Scope.receive_within hs
  | deploy o s hcode hs => exact Scope.install_within hs (DeployOrder.length_code hcheck)

/-- Whatever a VM asks for, an order adds nothing to the ledger that is beyond the limits on inputs. -/
theorem Host.carryOut_within (h : Host) (store : Store) (order : Order) :
    store.ledger.GrownWithin h.config.limits (h.carryOut store order).store.ledger :=
  (ledgerRule_within h.config).carryOut fun _ hcheck hs => hs.within hcheck

end ContractHost
