import ContractHost.Proofs.Metering
/-!
# Histories of a meter

A meter is charged and is told what may still be consumed, in any order and with any figures. Each use leads onward, so a
whole history does: the limit stays within the budget, the consumption within the limit, and the consumption never goes
down. After a refused charge there is nothing left to consume, and further charges change nothing.
-/
namespace ContractHost.Meter

inductive Use where
  | charge (amount : Gas)
  | setRemaining (remaining : Gas)

def afterUse (m : Meter) : Use → Meter
  | .charge amount => (m.charge amount).2
  | .setRemaining remaining => m.setRemaining remaining

def afterUses (m : Meter) (uses : List Use) : Meter :=
  uses.foldl afterUse m

variable {m n : Meter} {amount : Gas}

theorem Onward.trans {k : Meter} (h : m.Onward n) (h' : n.Onward k) : m.Onward k :=
  ⟨h'.cap.trans h.cap, Nat.le_trans h.consumed h'.consumed, h'.sound⟩

theorem Sound.afterUse (h : m.Sound) (u : Use) : m.Onward (m.afterUse u) := by
  cases u with
  | charge amount => exact h.charge amount
  | setRemaining remaining => exact h.setRemaining remaining

theorem Sound.afterUses (h : m.Sound) (uses : List Use) : m.Onward (m.afterUses uses) := by
  induction uses generalizing m with
  | nil => exact h.onward
  | cons u uses ih =>
    have hstep := h.afterUse u
    exact hstep.trans (ih hstep.sound)

theorem isOk_charge_iff : (m.charge amount).1 = .ok () ↔ m.consumed.toNat + amount.toNat ≤ m.limit.toNat := by
  by_cases hle : m.consumed.toNat + amount.toNat ≤ m.limit.toNat
  · simp [charge_of_le hle, hle]
  · simp [charge_of_lt (Nat.lt_of_not_le hle), hle]

theorem toNat_consumed_charge (m : Meter) (amount : Gas) : (m.charge amount).2.consumed.toNat =
    if m.consumed.toNat + amount.toNat ≤ m.limit.toNat then m.consumed.toNat + amount.toNat else m.limit.toNat := by
  split
  · exact consumed_charge_of_le ‹_›
  · rw [charge_of_lt (Nat.lt_of_not_le ‹_›)]

/-! ## After a refused charge -/

theorem spent_of_refused (h : (m.charge amount).1 ≠ .ok ()) : (m.charge amount).2.consumed = (m.charge amount).2.limit := by
  rw [ne_eq, isOk_charge_iff] at h
  rw [charge_of_lt (Nat.lt_of_not_le h)]

theorem isOk_charge_of_spent (h : m.consumed = m.limit) : (m.charge amount).1 = .ok () ↔ amount = 0 := by
  have hzero : amount = 0 ↔ amount.toNat = 0 := UInt64.toNat_inj.symm
  rw [isOk_charge_iff, h, hzero]
  omega

theorem charge_of_spent (h : m.consumed = m.limit) (amount : Gas) : (m.charge amount).2 = m := by
  by_cases hle : m.consumed.toNat + amount.toNat ≤ m.limit.toNat
  · have hzero : amount = 0 := (isOk_charge_of_spent h).mp (isOk_charge_iff.mpr hle)
    rw [charge_of_le hle, hzero, UInt64.add_zero]
  · rw [charge_of_lt (Nat.lt_of_not_le hle)]
    cases m
    cases h
    rfl

theorem afterUses_charges_of_spent (h : m.consumed = m.limit) (amounts : List Gas) :
    m.afterUses (amounts.map .charge) = m := by
  induction amounts with
  | nil => rfl
  | cons amount amounts ih =>
    show ((m.charge amount).2).afterUses (amounts.map .charge) = m
    rw [charge_of_spent h, ih]

/-- After any history of a meter its figures are in order, and its next uses are exact: a charge is taken whole if the
limit covers it and otherwise takes what is left, what may still be consumed is as it was set unless the budget leaves
less, and behind a refused charge every further one is refused but that of nothing. -/
theorem afterUses_exact (budget : Gas) (uses : List Use) :
    let m := (ofLimit budget).afterUses uses
    (m.consumed.toNat ≤ m.limit.toNat ∧ m.limit.toNat ≤ budget.toNat) ∧
    (∀ more, m.consumed.toNat ≤ (m.afterUses more).consumed.toNat) ∧
    (∀ amount, ((m.charge amount).1 = .ok () ↔ m.consumed.toNat + amount.toNat ≤ m.limit.toNat) ∧
      (m.charge amount).2.limit = m.limit ∧
      (m.charge amount).2.consumed.toNat =
        if m.consumed.toNat + amount.toNat ≤ m.limit.toNat then m.consumed.toNat + amount.toNat else m.limit.toNat) ∧
    (∀ remaining, (m.setRemaining remaining).consumed = m.consumed ∧
      (m.setRemaining remaining).remaining.toNat = min remaining.toNat (budget.toNat - m.consumed.toNat)) ∧
    ∀ (amount : Gas) (amounts : List Gas) (next : Gas), (m.charge amount).1 ≠ .ok () →
      let n := (m.charge amount).2.afterUses (amounts.map .charge)
      n.consumed = n.limit ∧ ((n.charge next).1 = .ok () ↔ next = 0) := by
  intro m
  have honward : (ofLimit budget).Onward m := (sound_ofLimit budget).afterUses uses
  have hsound : m.Sound := honward.sound
  have hcap : m.cap = budget := honward.cap
  have hlimit : m.limit.toNat ≤ budget.toNat := hcap ▸ hsound.limit
  refine ⟨⟨hsound.consumed, hlimit⟩, ?onward, ?charged, ?told, ?refused⟩
  case onward =>
    intro more
    exact (hsound.afterUses more).consumed
  case charged =>
    intro amount
    exact ⟨isOk_charge_iff, limit_charge amount, toNat_consumed_charge m amount⟩
  case told =>
    intro remaining
    refine ⟨rfl, ?_⟩
    rw [toNat_remaining_setRemaining (Nat.le_trans hsound.consumed hsound.limit), hcap]
  case refused =>
    intro amount amounts next hrefused n
    have hspent := spent_of_refused hrefused
    have hsame : n = (m.charge amount).2 := afterUses_charges_of_spent hspent amounts
    rw [hsame]
    exact ⟨hspent, isOk_charge_of_spent hspent⟩

/-- A charge whose sum is no gas figure is refused at the largest budget, and after it the charge of one. -/
theorem overrun_exact :
    let m := (ofLimit 18446744073709551615).afterUses [.charge 600, .setRemaining 18446744073709551615]
    (m.charge 18446744073709551615).1 ≠ .ok () ∧
    let n := (m.charge 18446744073709551615).2.afterUses [.charge 0, .charge 7]
    n.consumed = 18446744073709551615 ∧ (n.charge 1).1 ≠ .ok () := by
  intro m
  have hrefused : (m.charge 18446744073709551615).1 ≠ .ok () := by
    rw [ne_eq, isOk_charge_iff]
    decide
  have hexact := afterUses_exact 18446744073709551615 [.charge 600, .setRemaining 18446744073709551615]
  obtain ⟨hconsumed, hnext⟩ := hexact.2.2.2.2 18446744073709551615 [0, 7] 1 hrefused
  refine ⟨hrefused, hconsumed.trans (by decide), ?_⟩
  rw [ne_eq, show [Use.charge 0, .charge 7] = [0, 7].map .charge from rfl, hnext]
  decide

end ContractHost.Meter
