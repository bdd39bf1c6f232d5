import ContractHost.Proofs.Conservation
import ContractHost.Proofs.Footprint
import ContractHost.Proofs.ReadableResults
import ContractHost.Proofs.Snapshots
/-!
# Ledgers that stay loadable

Scripts move amounts and burn them, but make none. So no amount of a ledger grows beyond the ledger's wealth, and orders
keep the ledger loadable as long as its wealth fits 32 bytes. From there on they do not.
-/
namespace ContractHost

namespace Ledger

variable {l : Ledger}

theorem balance_le_wealth {e : Address × Account} (h : e ∈ l.accounts.toList) : e.2.balance ≤ l.wealth := by
  have hle := le_sumOf (fun e : Address × Account => e.2.balance) h
  exact Nat.le_trans hle (Nat.le_add_right _ _)

/-- The fee stands apart: it is no part of the wealth. -/
theorem fits_of_wealth (hfee : l.chain.minFeePerGas.Fits) (hwealth : Amount.Fits l.wealth) : l.Fits where
  fee := hfee
  balance _ he := Nat.lt_of_le_of_lt (balance_le_wealth he) hwealth
  burnt := Nat.lt_of_le_of_lt (Nat.le_add_left _ _) hwealth

end Ledger

namespace Host

theorem carryOut_chain (h : Host) (store : Store) (order : Order) :
    (h.carryOut store order).store.ledger.chain = store.ledger.chain := by
  have hend := h.carryOut_end store order
  generalize h.carryOut store order = c at hend ⊢
  cases hend with
  | barred e hcheck => rfl
  | refused why hcheck hscope => rfl
  | failed s hcheck hs hfail => rfl
  | rejected s reason hcheck hs hok hstore => rfl
  | committed s hcheck hs hok hstore =>
    obtain ⟨-, hrun⟩ := runFrame_leaves h.vm h.config h.config.maxCallDepth.toNat s h.stack order.invocation order.amount
      order.gasLimit hok
    exact hrun.chain.trans hs.spares.chain

theorem carryOut_wealth_of_neutral {h : Host} (hvm : ∀ i code gas, (h.vm.program i code gas).Asks Request.Neutral)
    (l : Ledger) (order : Order) : (h.carryOut { ledger := l } order).store.ledger.wealth = l.wealth := by
  have hconserves := h.carryOut_conserves l order
  have hcredited : (h.carryOut { ledger := l } order).flow Exchange.credited = 0 :=
    carryOut_flow hvm (fun x hx => by simp [Exchange.credited, hx.1]) _ order
  have hdebited : (h.carryOut { ledger := l } order).flow Exchange.debited = 0 :=
    carryOut_flow hvm (fun x hx => by simp [Exchange.debited, hx.2]) _ order
  rw [hcredited, hdebited] at hconserves
  exact hconserves

/-- The ledger after orders that are carried out one after the other. -/
def ledgerAfter (h : Host) (l : Ledger) (orders : List Order) : Ledger :=
  orders.foldl (fun l order => (h.carryOut { ledger := l } order).store.ledger) l

theorem ledgerAfter_keeps {h : Host} (hvm : ∀ i code gas, (h.vm.program i code gas).Asks Request.Neutral) (l : Ledger)
    (orders : List Order) : (h.ledgerAfter l orders).chain = l.chain ∧ (h.ledgerAfter l orders).wealth = l.wealth := by
  induction orders generalizing l with
  | nil => exact ⟨rfl, rfl⟩
  | cons order orders ih =>
    have hchain := h.carryOut_chain { ledger := l } order
    have hwealth := carryOut_wealth_of_neutral hvm l order
    obtain ⟨hchain', hwealth'⟩ := ih (h.carryOut { ledger := l } order).store.ledger
    exact ⟨hchain'.trans hchain, hwealth'.trans hwealth⟩

/-- Orders that run scripts keep a ledger loadable from its snapshot, if all that it holds and has burnt fits 32 bytes. -/
theorem ledgerAfter_loadable (h : Host) (cost : Gas) (l : Ledger) (orders : List Order)
    (hload : Snapshot.load (some (Snapshot.save l)) = .ok l) (hwealth : l.wealth < 2 ^ 256) :
    Snapshot.load (some (Snapshot.save (ledgerAfter { h with vm := Script.vm cost } l orders))) =
      .ok (ledgerAfter { h with vm := Script.vm cost } l orders) := by
  let scripts : Host := { h with vm := Script.vm cost }
  have hneutral : ∀ i code gas, (scripts.vm.program i code gas).Asks Request.Neutral := Script.asks_vm cost
  obtain ⟨hchain, hsame⟩ := ledgerAfter_keeps hneutral l orders
  apply Snapshot.load_save
  apply Ledger.fits_of_wealth
  · rw [hchain]
    exact (Snapshot.fits_of_load hload).fee
  · rw [hsame]
    exact hwealth

end Host

/-- A ledger that has burnt an amount, with a script that burns one unit more. -/
def Ledger.burning (burnt : Amount) : Ledger :=
  { accounts := OrderedMap.empty.insert .zero { balance := 1, code := some (Bytes.ofText "fn run\n burn 1") }, burnt }

theorem Ledger.fits_burning {burnt : Amount} (h : burnt.Fits) : (burning burnt).Fits where
  fee := by
    show Amount.Fits 0
    decide
  balance e he := by
    have hsingle : e = (.zero, { balance := 1, code := some (Bytes.ofText "fn run\n burn 1") }) :=
      List.mem_singleton.mp he
    rw [hsingle]
    decide
  burnt := h

namespace Host

theorem burning_loadable :
    let l := Ledger.burning (2 ^ 256 - 2)
    Snapshot.load (some (Snapshot.save l)) = .ok l ∧ l.wealth < 2 ^ 256 ∧
      Snapshot.load (some (Snapshot.save (scripts.ledgerAfter l [.execute .atZero]))) =
        .ok (scripts.ledgerAfter l [.execute .atZero]) := by
  have hburnt : Amount.Fits (2 ^ 256 - 2) := by decide
  have hload := Snapshot.load_save (Ledger.fits_burning hburnt)
  have hwealth : (Ledger.burning (2 ^ 256 - 2)).wealth < 2 ^ 256 := by
    show 1 + (2 ^ 256 - 2) < 2 ^ 256
    decide
  exact ⟨hload, hwealth, scripts.ledgerAfter_loadable 1 _ [.execute .atZero] hload hwealth⟩

/-- What was burnt may not be read back, though it was before the order. -/
theorem burning_unloadable :
    scripts.config.validate = .ok () ∧
      Snapshot.load (some (Snapshot.save (.burning (2 ^ 256 - 1)))) = .ok (.burning (2 ^ 256 - 1)) ∧
      let l := (scripts.carryOut { ledger := .burning (2 ^ 256 - 1) } (.execute .atZero)).store.ledger
      Snapshot.load (some (Snapshot.save l)) ≠ .ok l := by
  have hburnt : (scripts.carryOut { ledger := .burning (2 ^ 256 - 1) } (.execute .atZero)).store.ledger.burnt =
      2 ^ 256 := by
    decide +kernel
  refine ⟨rfl, Snapshot.load_save (Ledger.fits_burning (by decide)), ?_⟩
  intro l hload
  have hfits : Amount.Fits (2 ^ 256) := hburnt ▸ (Snapshot.fits_of_load hload).burnt
  revert hfits
  decide

end Host

end ContractHost
