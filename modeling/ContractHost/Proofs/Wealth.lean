import ContractHost.Proofs.LedgerWrites
import ContractHost.Proofs.Sums
/-!
# The wealth of a ledger

All balances together with what was burnt. A write of a balance changes it by the difference to the balance that was
there, whether or not the account existed, and burning adds to it; no other write does anything to it.
-/
namespace ContractHost

namespace OrderedMap

open OrderedKey (before)

variable {κ β : Type} [OrderedKey κ]

/-- The sum over the entries of a map. -/
def total (f : β → Nat) (m : OrderedMap κ β) : Nat :=
  sumOf (fun e => f e.2) m.toList

theorem sumOf_put (f : β → Nat) (k : κ) (v : β) (es : List (κ × β)) :
    sumOf (fun e => f e.2) (put k v es) + ((find? k es).map f).getD 0 = sumOf (fun e => f e.2) es + f v := by
  induction es with
  | nil => simp [put, find?]
  | cons e es ih =>
    obtain ⟨k', w⟩ := e
    by_cases hbefore : before k' k
    · simp only [put, find?, hbefore, if_true, sumOf_cons]
      omega
    · by_cases hafter : before k k'
      · simp only [put, find?, hbefore, hafter, Bool.false_eq_true, if_false, if_true, sumOf_cons, Option.map_none,
          Option.getD_none]
        omega
      · simp only [put, find?, hbefore, hafter, Bool.false_eq_true, if_false, sumOf_cons, Option.map_some,
          Option.getD_some]
        omega

/-- What an entry is worth takes the place of what the one before was worth. -/
theorem total_insert (f : β → Nat) (m : OrderedMap κ β) (k : κ) (v : β) :
    (m.insert k v).total f + ((m.get? k).map f).getD 0 = m.total f + f v :=
  sumOf_put f k v m.toList

end OrderedMap

namespace Ledger

/-- All balances and the amount that was burnt. -/
def wealth (l : Ledger) : Nat :=
  l.accounts.total Account.balance + l.burnt

variable (l : Ledger)

theorem wealth_modify (a : Address) (f : Account → Account) :
    (l.modify a f).wealth + l.balance a = l.wealth + (f (l.accountAt a)).balance := by
  have htotal := l.accounts.total_insert Account.balance a (f (l.accountAt a))
  have hbalance : l.balance a = ((l.accounts.get? a).map Account.balance).getD 0 := by
    rw [balance, accountAt, account?]
    cases l.accounts.get? a <;> rfl
  rw [← hbalance] at htotal
  show (l.accounts.insert a (f (l.accountAt a))).total Account.balance + l.burnt + l.balance a =
    l.accounts.total Account.balance + l.burnt + (f (l.accountAt a)).balance
  omega

theorem wealth_setBalance (a : Address) (balance : Nat) :
    (l.write (.setBalance a balance)).wealth + l.balance a = l.wealth + balance :=
  l.wealth_modify a _

theorem wealth_debit {a : Address} {amount : Nat} (h : amount ≤ l.balance a) :
    (l.write (.setBalance a (l.balance a - amount))).wealth + amount = l.wealth := by
  have htaken : (l.write (.setBalance a (l.balance a - amount))).wealth + l.balance a =
      l.wealth + (l.balance a - amount) := l.wealth_setBalance a _
  omega

theorem wealth_credit (a : Address) (amount : Nat) :
    (l.write (.setBalance a (l.balance a + amount))).wealth = l.wealth + amount := by
  have hgiven : (l.write (.setBalance a (l.balance a + amount))).wealth + l.balance a =
      l.wealth + (l.balance a + amount) := l.wealth_setBalance a _
  omega

theorem wealth_addBurnt (amount : Nat) : (l.write (.addBurnt amount)).wealth = l.wealth + amount :=
  (Nat.add_assoc _ _ _).symm

theorem wealth_modify_of_balance (a : Address) {f : Account → Account} (hf : ∀ x, (f x).balance = x.balance) :
    (l.modify a f).wealth = l.wealth := by
  have hwealth : (l.modify a f).wealth + l.balance a = l.wealth + l.balance a := by
    rw [wealth_modify, hf]
    rfl
  exact Nat.add_right_cancel hwealth

theorem wealth_setStorage (contract : Address) (key value : Bytes) :
    (l.write (.setStorage contract key value)).wealth = l.wealth :=
  l.wealth_modify_of_balance contract fun _ => rfl

theorem wealth_removeStorage (contract : Address) (key : Bytes) :
    (l.write (.removeStorage contract key)).wealth = l.wealth :=
  l.wealth_modify_of_balance contract fun _ => rfl

theorem wealth_setCode (a : Address) (code : Bytes) : (l.write (.setCode a code)).wealth = l.wealth :=
  l.wealth_modify_of_balance a fun _ => rfl

theorem wealth_pushEvent (e : Event) : (l.write (.pushEvent e)).wealth = l.wealth :=
  rfl

end Ledger

end ContractHost
