import ContractHost.Ledger.Snapshot
import ContractHost.Proofs.Bech32Texts
import ContractHost.Proofs.HexTexts
import ContractHost.Proofs.JsonRecords
import ContractHost.Proofs.JsonTexts
import ContractHost.Proofs.MapFold
import ContractHost.Proofs.RequestInputs
/-!
# Snapshots that can be loaded

A ledger is loaded from its snapshot exactly if the minimum fee, every balance and what was burnt fit 32 bytes.
-/
namespace ContractHost

/-! ## Fields -/

namespace Json

theorem asForm_text {α : Type} {read : String → Except FormatError α} {s : String} {a : α} (h : read s = .ok a) :
    asForm read (.text s) = some a := by
  simp [asForm, asText, h, Except.toOption]

end Json

theorem Address.ofJson?_toJson (a : Address) : ofJson? a.toJson = some a :=
  Json.asForm_text a.ofText_text

theorem Amount.ofJson?_toJson {a : Amount} (h : a.Fits) : ofJson? (toJson a) = some a :=
  Json.asForm_text (ofText_text h)

theorem Chain.timestamp?_int (t : Int64) : timestamp? (.int t.toInt) = some t := by
  have hlow : -9223372036854775808 ≤ t.toInt := t.le_toInt
  have hhigh : t.toInt < 9223372036854775808 := t.toInt_lt
  rw [timestamp?, if_pos ⟨hlow, Int.le_of_lt_add_one hhigh⟩, Int64.ofInt_toInt]

theorem Chain.ofJson?_toJson {c : Chain} (h : c.minFeePerGas.Fits) : ofJson? c.toJson = some c := by
  have hepoch : c.epoch.toNat ≤ 65535 := Nat.le_of_lt_succ c.epoch.toNat_lt
  rw [ofJson?, toJson, Json.fields?_object]
  · simp [Json.need, Json.asWord_ofNat, timestamp?_int, Amount.ofJson?_toJson h, Json.asBytes_ofBytes,
      Json.asNat_ofNat hepoch]
  · rfl
  · decide

theorem Event.ofJson?_toJson (e : Event) : ofJson? e.toJson = some e := by
  have hargs : Json.asList Json.asBytes (.list (e.args.map Json.ofBytes)) = some e.args :=
    Json.asList_map fun b _ => Json.asBytes_ofBytes b
  rw [ofJson?, toJson, Json.fields?_object]
  · simp [Json.need, Address.ofJson?_toJson, hargs, Json.asText]
  · rfl
  · decide

/-! ## Accounts -/

namespace Snapshot

def textOf (address : Address) (account : Account) : AccountText where
  address
  balance := account.balance
  code := account.code.map Hex.encode
  storage := .ofList (account.storage.toList.map fun e => (Hex.codes e.1, Hex.encode e.2))
  identityState := account.identityState
  identity := account.identity.map Hex.encode

theorem optional_optionalHex (b : Option Bytes) :
    Json.optional Json.asText (some (optionalHex b)) = some (b.map Hex.encode) := by
  cases b <;> rfl

theorem storage?_json (es : List (Bytes × Bytes)) :
    storage? (.object (es.map fun e => (Hex.encode e.1, .text (Hex.encode e.2)))) =
      some (.ofList (es.map fun e => (Hex.codes e.1, Hex.encode e.2))) := by
  rw [storage?, mapM_map_of_pure (h := fun e : Bytes × Bytes => (Hex.codes e.1, Hex.encode e.2))]
  · rfl
  · intro e _
    show some (Bytes.ofText (Hex.encode e.1), Hex.encode e.2) = _
    rw [Hex.ofText_encode]
    rfl

theorem accountText?_json {address : Address} {account : Account} (h : account.balance.Fits) :
    accountText? (accountJson (address, account)) = some (textOf address account) := by
  have hstate : account.identityState.toNat ≤ 255 := Nat.le_of_lt_succ account.identityState.toNat_lt
  rw [accountText?, accountJson, Json.fields?_object]
  · simp [Json.need, Address.ofJson?_toJson, Amount.ofJson?_toJson h, optional_optionalHex, storage?_json,
      Json.asNat_ofNat hstate, textOf]
  · rfl
  · decide

theorem bytes_codes (b : Bytes) : bytes (Hex.codes b) = .ok b := by
  rw [bytes, Hex.decodeCodes_codes]
  rfl

theorem optionalBytes_map (b : Option Bytes) : optionalBytes (b.map Hex.encode) = .ok b := by
  cases b with
  | none => rfl
  | some b =>
    show (do
      let b ← bytes (Bytes.ofText (Hex.encode b))
      return some b) = _
    rw [Hex.ofText_encode, bytes_codes]
    rfl

theorem storage_textOf (address : Address) (account : Account) :
    (textOf address account).storage.toList = account.storage.toList.map fun e => (Hex.codes e.1, Hex.encode e.2) := by
  apply OrderedMap.toList_ofList
  rw [List.pairwise_map]
  apply account.storage.increasing.imp
  intro a b hab
  exact (Hex.before_codes a.1 b.1).trans hab

theorem account_textOf (address : Address) (a : Account) : account (textOf address a) = .ok a := by
  have hcode : optionalBytes (textOf address a).code = .ok a.code := optionalBytes_map a.code
  have hidentity : optionalBytes (textOf address a).identity = .ok a.identity := optionalBytes_map a.identity
  rw [account, storage_textOf, mapM_map_of_pure (h := id), List.map_id, hcode, hidentity]
  · show Except.ok { a with storage := .ofList a.storage.toList } = _
    rw [OrderedMap.ofList_toList]
  · intro e _
    simp only [Hex.ofText_encode, bytes_codes]
    rfl

/-! ## Ledgers -/

end Snapshot

structure Ledger.Fits (l : Ledger) : Prop where
  fee : l.chain.minFeePerGas.Fits
  balance : ∀ e ∈ l.accounts.toList, e.2.balance.Fits
  burnt : l.burnt.Fits

namespace Snapshot

theorem ledgerText?_toJson {l : Ledger} (h : l.Fits) : ledgerText? (toJson l) =
    some { chain := l.chain, accounts := l.accounts.toList.map fun e => textOf e.1 e.2, events := l.events,
           burnt := l.burnt } := by
  have hevents : Json.asList Event.ofJson? (.list (l.events.map Event.toJson)) = some l.events :=
    Json.asList_map fun e _ => e.ofJson?_toJson
  have haccounts : Json.asList accountText? (.list (l.accounts.toList.map accountJson)) =
      some (l.accounts.toList.map fun e => textOf e.1 e.2) :=
    mapM_map_of_pure fun e he => accountText?_json (h.balance e he)
  rw [ledgerText?, toJson, Json.fields?_object]
  · simp [Json.need, Chain.ofJson?_toJson h.fee, haccounts, hevents, Amount.ofJson?_toJson h.burnt]
  · rfl
  · decide

theorem held_map {α : Type} {write : α → Json} (h : ∀ x, (write x).Held) (xs : List α) :
    (Json.list (xs.map write)).Held := by
  apply Json.Held.list
  intro j hj
  obtain ⟨x, -, rfl⟩ := List.mem_map.mp hj
  exact h x

theorem held_optionalHex (b : Option Bytes) : (optionalHex b).Held := by
  cases b with
  | none => exact .word .null
  | some b => exact .text _

theorem held_ofBytes (b : Bytes) : (Json.ofBytes b).Held := by
  apply held_map
  intro x
  exact .word (.int _)

theorem held_chain (c : Chain) : c.toJson.Held := by
  apply Json.Held.object
  simp only [List.forall_mem_cons]
  exact ⟨.word (.int _), .word (.int _), .text _, held_ofBytes _, .word (.int _), .word (.int _), List.forall_mem_nil _⟩

theorem held_event (e : Event) : e.toJson.Held := by
  apply Json.Held.object
  simp only [List.forall_mem_cons]
  exact ⟨.text _, .text _, held_map held_ofBytes e.args, List.forall_mem_nil _⟩

theorem held_account (e : Address × Account) : (accountJson e).Held := by
  have hstorage : (Json.object (e.2.storage.toList.map fun d => (Hex.encode d.1, .text (Hex.encode d.2)))).Held := by
    apply Json.Held.object
    intro m hm
    obtain ⟨d, -, rfl⟩ := List.mem_map.mp hm
    exact .text _
  apply Json.Held.object
  simp only [List.forall_mem_cons]
  exact ⟨.text _, .text _, held_optionalHex _, hstorage, .word (.int _), held_optionalHex _, List.forall_mem_nil _⟩

theorem held_toJson (l : Ledger) : (toJson l).Held := by
  apply Json.Held.object
  simp only [List.forall_mem_cons]
  exact ⟨held_chain _, held_map held_account _, held_map held_event _, .text _, List.forall_mem_nil _⟩

theorem load_save {l : Ledger} (h : l.Fits) : load (some (save l)) = .ok l := by
  have hparse : Json.parse? (save l) = some (toJson l) := (held_toJson l).parse?_pretty
  simp only [load, hparse, Option.bind_some, ledgerText?_toJson h]
  rw [mapM_map_of_pure (h := id), List.map_id]
  · show Except.ok { l with accounts := .ofList l.accounts.toList } = _
    rw [OrderedMap.ofList_toList]
  · intro e _
    simp only [account_textOf]
    rfl

/-! ## What was loaded -/

theorem exists_of_mapM {m : Type → Type} [Monad m] [LawfulMonad m]
    (hpure : ∀ {α : Type} {a a' : α}, (pure a : m α) = pure a' → a = a')
    (hbind : ∀ {α β : Type} {x : m α} {k : α → m β} {b : β}, x >>= k = pure b → ∃ a, x = pure a ∧ k a = pure b)
    {α β : Type} {f : α → m β} {xs : List α} {ys : List β} (h : xs.mapM f = pure ys) :
    ∀ y ∈ ys, ∃ x ∈ xs, f x = pure y := by
  induction xs generalizing ys with
  | nil =>
    cases hpure h
    exact fun y hy => nomatch hy
  | cons x xs ih =>
    rw [List.mapM_cons] at h
    obtain ⟨z, hz, h⟩ := hbind h
    obtain ⟨zs, hzs, h⟩ := hbind h
    cases hpure h
    intro y hy
    rcases List.mem_cons.mp hy with rfl | hy
    · exact ⟨x, List.mem_cons_self, hz⟩
    · obtain ⟨w, hw, hread⟩ := ih hzs y hy
      exact ⟨w, List.mem_cons_of_mem _ hw, hread⟩

theorem amount_fits {j : Option Json} {a : Amount} (h : Json.need Amount.ofJson? j = some a) : a.Fits := by
  cases j with
  | none => cases h
  | some j =>
    simp only [Json.need, Amount.ofJson?, Json.asForm] at h
    split at h
    · rename_i s hs
      cases hread : Amount.ofText s with
      | error e =>
        rw [hread] at h
        cases h
      | ok b =>
        rw [hread] at h
        cases h
        exact Amount.fits_of_ofText hread
    · cases h

theorem chain_fits {j : Option Json} {c : Chain} (h : Json.need Chain.ofJson? j = some c) : c.minFeePerGas.Fits := by
  cases j with
  | none => cases h
  | some j =>
    simp only [Json.need, Chain.ofJson?] at h
    obtain ⟨fs, hfields, h⟩ := Option.bind_eq_some_iff.mp h
    split at h
    · simp only [Option.bind_eq_bind, Option.bind_eq_some_iff] at h
      obtain ⟨_, _, _, _, fee, hfee, _, _, _, _, _, _, hc⟩ := h
      cases hc
      exact amount_fits hfee
    · cases h

theorem accountText_fits {j : Json} {a : AccountText} (h : accountText? j = some a) : a.balance.Fits := by
  simp only [accountText?] at h
  obtain ⟨fs, hfields, h⟩ := Option.bind_eq_some_iff.mp h
  split at h
  · simp only [Option.bind_eq_bind, Option.bind_eq_some_iff] at h
    obtain ⟨_, _, balance, hbalance, _, _, _, _, _, _, _, _, ha⟩ := h
    cases ha
    exact amount_fits hbalance
  · cases h

theorem accounts_fit {j : Option Json} {accounts : List AccountText}
    (h : Json.need (Json.asList accountText?) j = some accounts) : ∀ a ∈ accounts, a.balance.Fits := by
  intro a ha
  cases j with
  | none => cases h
  | some j =>
    cases j with
    | list xs =>
      obtain ⟨x, -, hread⟩ := exists_of_mapM Option.some.inj Option.bind_eq_some_iff.mp h a ha
      exact accountText_fits hread
    | _ => cases h

theorem ledgerText_fits {j : Json} {t : LedgerText} (h : ledgerText? j = some t) :
    t.chain.minFeePerGas.Fits ∧ (∀ a ∈ t.accounts, a.balance.Fits) ∧ t.burnt.Fits := by
  simp only [ledgerText?] at h
  obtain ⟨fs, hfields, h⟩ := Option.bind_eq_some_iff.mp h
  split at h
  · simp only [Option.bind_eq_bind, Option.bind_eq_some_iff] at h
    obtain ⟨chain, hchain, accounts, haccounts, _, _, burnt, hburnt, ht⟩ := h
    cases ht
    exact ⟨chain_fits hchain, accounts_fit haccounts, amount_fits hburnt⟩
  · cases h

theorem balance_account {t : AccountText} {a : Account} (h : account t = .ok a) : a.balance = t.balance := by
  obtain ⟨_, _, h⟩ := bind_ok h
  obtain ⟨_, _, h⟩ := bind_ok h
  obtain ⟨_, _, h⟩ := bind_ok h
  cases h
  rfl

theorem fits_of_load {s : Option String} {l : Ledger} (h : load s = .ok l) : l.Fits := by
  cases s with
  | none => cases h
  | some s =>
    simp only [load] at h
    split at h
    · cases h
    · rename_i t ht
      obtain ⟨j, -, htext⟩ := Option.bind_eq_some_iff.mp ht
      obtain ⟨hfee, hbalance, hburnt⟩ := ledgerText_fits htext
      obtain ⟨es, hes, h⟩ := bind_ok h
      cases h
      refine ⟨hfee, ?_, hburnt⟩
      intro e he
      obtain ⟨a, ha, hread⟩ := exists_of_mapM Except.ok.inj bind_ok hes e (OrderedMap.mem_ofList he)
      obtain ⟨account, haccount, hpair⟩ := bind_ok hread
      cases hpair
      rw [balance_account haccount]
      exact hbalance a ha

/-- A ledger is loaded from its snapshot exactly if its amounts fit. -/
theorem load_save_iff {l : Ledger} : load (some (save l)) = .ok l ↔ l.Fits :=
  ⟨fits_of_load, load_save⟩

end Snapshot

end ContractHost
