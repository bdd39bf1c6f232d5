import Mathlib.Data.List.Nodup
import ContractHost.Proofs.LedgerWrites
import ContractHost.Proofs.Snapshots
/-!
# Snapshots and the order of insertion

A ledger is what its entries are and not how they came in: parts of accounts that are put into it in another order make
the same ledger, so they make the same snapshot. Nor does it matter how the accounts are listed before they are sorted by
address.
-/
namespace ContractHost

open OrderedKey (before)

/-! ## Sorted listings -/

namespace OrderedMap

variable {κ β : Type} [OrderedKey κ]

/-- Whether an entry may stand before another one in key order. -/
def inOrder (e e' : κ × β) : Bool :=
  !before e'.1 e.1

theorem inOrder_of_before {e e' : κ × β} (h : before e.1 e'.1 = true) : inOrder e e' = true := by
  rw [inOrder, OrderedKey.asymm h]
  rfl

theorem inOrder_total (e e' : κ × β) : (inOrder e e' || inOrder e' e) = true := by
  rcases OrderedKey.total e.1 e'.1 with h | h | h
  · simp [inOrder, h, OrderedKey.irrefl]
  · simp [inOrder_of_before h]
  · simp [inOrder_of_before h]

theorem inOrder_trans {e e' e'' : κ × β} (h : inOrder e e' = true) (h' : inOrder e' e'' = true) :
    inOrder e e'' = true := by
  rw [inOrder, Bool.not_eq_true'] at h h' ⊢
  -- What stands before `e` would stand before `e'`, since `e` does not stand after it.
  by_contra hbefore
  rw [Bool.not_eq_false] at hbefore
  rcases OrderedKey.total e.1 e'.1 with heq | hlt | hgt
  · rw [heq, h'] at hbefore
    cases hbefore
  · rw [OrderedKey.trans hbefore hlt] at h'
    cases h'
  · rw [hgt] at h
    cases h

/-- The entries of a map in any order are its list once they are sorted. -/
theorem mergeSort_eq_toList (m : OrderedMap κ β) {es : List (κ × β)} (h : es.Perm m.toList) :
    es.mergeSort inOrder = m.toList := by
  have hsorted : (es.mergeSort inOrder).Pairwise fun e e' => inOrder e e' = true :=
    @List.pairwise_mergeSort _ inOrder (fun _ _ _ => inOrder_trans) inOrder_total es
  have hlist : m.toList.Pairwise fun e e' => inOrder e e' = true := m.increasing.imp inOrder_of_before
  have hperm : (es.mergeSort inOrder).Perm m.toList := (List.mergeSort_perm es inOrder).trans h
  refine List.Perm.eq_of_pairwise ?_ hsorted hlist hperm
  intro e e' he he' hle hge
  -- Two entries of the map that stand neither before nor after each other have one key and so one value.
  rw [inOrder, Bool.not_eq_true'] at hle hge
  have hkey : e.1 = e'.1 := by
    rcases OrderedKey.total e.1 e'.1 with heq | hlt | hgt
    · exact heq
    · rw [hlt] at hge
      cases hge
    · rw [hgt] at hle
      cases hle
  have hvalue := mem_toList_iff.mp (hperm.mem_iff.mp he)
  have hvalue' := mem_toList_iff.mp he'
  rw [hkey, hvalue'] at hvalue
  exact Prod.ext hkey (Option.some.inj hvalue).symm

end OrderedMap

/-! ## Parts of accounts -/

/-- A part of an account that can be put into a ledger. -/
inductive Account.Part where
  | balance (balance : Amount)
  | code (code : Bytes)
  | storage (key value : Bytes)
  | identity (state : UInt8) (identity : Option Bytes)

/-- Where in an account a part goes. -/
inductive Account.Slot where
  | balance
  | code
  | storage (key : Bytes)
  | identity
  deriving DecidableEq

namespace Account

def Part.slot : Part → Slot
  | .balance _ => .balance
  | .code _ => .code
  | .storage key _ => .storage key
  | .identity _ _ => .identity

def put (x : Account) : Part → Account
  | .balance balance => { x with balance }
  | .code code => { x with code := some code }
  | .storage key value => { x with storage := x.storage.insert key value }
  | .identity state identity => { x with identityState := state, identity }

theorem put_comm (x : Account) {p q : Part} (h : p.slot ≠ q.slot) : (x.put p).put q = (x.put q).put p := by
  cases p with
  | storage key value =>
    cases q with
    | storage key' value' =>
      have hkey : key ≠ key' := fun e => h (congrArg Slot.storage e)
      simp only [put, x.storage.insert_comm value value' hkey]
    | _ => rfl
  | balance balance | code code | identity state identity =>
    cases q <;> first | rfl | exact absurd rfl h

end Account

namespace Ledger

def enter (l : Ledger) : Address × Account.Part → Ledger
  | (a, .balance balance) => l.setBalance a balance
  | (a, .code code) => l.setCode a code
  | (a, .storage key value) => l.setStorage a key value
  | (a, .identity state identity) => l.setIdentity a state identity

/-- The ledger with parts of accounts put in one after the other. -/
def enterAll (l : Ledger) (es : List (Address × Account.Part)) : Ledger :=
  es.foldl enter l

def places (es : List (Address × Account.Part)) : List (Address × Account.Slot) :=
  es.map fun e => (e.1, e.2.slot)

theorem enter_def (l : Ledger) (e : Address × Account.Part) : l.enter e = l.modify e.1 (Account.put · e.2) := by
  obtain ⟨a, p⟩ := e
  cases p <;> rfl

theorem enter_comm (l : Ledger) {e e' : Address × Account.Part} (h : (e.1, e.2.slot) ≠ (e'.1, e'.2.slot)) :
    (l.enter e).enter e' = (l.enter e').enter e := by
  simp only [enter_def]
  by_cases ha : e.1 = e'.1
  · have hslot : e.2.slot ≠ e'.2.slot := fun hs => h (Prod.ext ha hs)
    exact l.modify_swap _ _ fun x => x.put_comm hslot
  · exact l.modify_comm _ _ ha

/-- Parts that go to different places can be put in in any order. -/
theorem enterAll_perm (l : Ledger) {es es' : List (Address × Account.Part)} (h : es.Perm es')
    (hplaces : (places es).Nodup) : l.enterAll es = l.enterAll es' := by
  refine h.foldl_eq' ?_ l
  intro e he e' he' l
  by_cases hplace : (e.1, e.2.slot) = (e'.1, e'.2.slot)
  · rw [List.inj_on_of_nodup_map hplaces he he' hplace]
  · exact l.enter_comm hplace

end Ledger

/-! ## Snapshots -/

namespace Snapshot

/-- A ledger is read back from its snapshot as it was. The snapshot is the same whatever the order in which the parts of
the accounts came into the ledger, and in which the accounts were listed before they were sorted. -/
theorem save_faithful {l : Ledger} (h : l.Fits) :
    load (some (save l)) = .ok l ∧
      (∀ listing : List (Address × Account), listing.Perm l.accounts.toList →
        listing.mergeSort OrderedMap.inOrder = l.accounts.toList) ∧
      ∀ (base : Ledger) (es es' : List (Address × Account.Part)), base.enterAll es = l → es.Perm es' →
        (Ledger.places es).Nodup → save (base.enterAll es') = save l := by
  refine ⟨load_save h, fun listing => l.accounts.mergeSort_eq_toList, ?_⟩
  rintro base es es' rfl hperm hplaces
  rw [base.enterAll_perm hperm hplaces]

end Snapshot

/-- A ledger without accounts, before the epoch and with an event that has to be escaped. -/
def Ledger.early : Ledger :=
  { chain := { blockTimestamp := -1, minFeePerGas := 2 ^ 256 - 1 }
    events := [{ contract := .zero, name := "\"é\n", args := [[], [0, 255]] }] }

/-- Parts of an account with keys that are no text, with empty code and with an empty identity. -/
def Account.sundries : List (Address × Account.Part) :=
  [(.zero, .storage [0, 255] []), (.zero, .storage [] [10]), (.zero, .balance 5), (.zero, .code []),
   (.zero, .identity 3 (some []))]

/-- The parts are read back from a snapshot, and they may have come in backwards. -/
theorem Snapshot.sundries_faithful :
    let l := Ledger.early.enterAll Account.sundries
    l.code .zero = some [] ∧ load (some (save l)) = .ok l ∧
      save (Ledger.early.enterAll Account.sundries.reverse) = save l := by
  have hfits : (Ledger.early.enterAll Account.sundries).Fits := ⟨by decide, by decide, by decide⟩
  obtain ⟨hload, -, horder⟩ := save_faithful hfits
  exact ⟨by decide, hload, horder _ _ _ rfl (List.reverse_perm _).symm (by decide)⟩

end ContractHost
