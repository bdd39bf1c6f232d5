import ContractHost.Proofs.FrameSteps
/-!
# Meters

The consumption of a meter never exceeds its limit, nor the limit the budget, whatever remaining gas the program claims
to have; and the consumption never goes down.
-/
namespace ContractHost

namespace Meter

variable {m m' n : Meter} {price : Gas}

/-- A meter within its limit, and the limit within the budget. -/
structure Sound (m : Meter) : Prop where
  consumed : m.consumed.toNat ≤ m.limit.toNat
  limit : m.limit.toNat ≤ m.cap.toNat

theorem sound_ofLimit (limit : Gas) : (ofLimit limit).Sound :=
  ⟨Nat.zero_le _, Nat.le_refl _⟩

/-- What a meter may become during a frame. -/
structure Onward (m m' : Meter) : Prop where
  cap : m'.cap = m.cap
  consumed : m.consumed.toNat ≤ m'.consumed.toNat
  sound : m'.Sound

theorem Sound.onward (h : m.Sound) : m.Onward m :=
  ⟨rfl, Nat.le_refl _, h⟩

theorem toNat_remaining (m : Meter) : m.remaining.toNat = m.limit.toNat - m.consumed.toNat :=
  Gas.toNat_minus _ _

theorem charge_of_le {amount : Gas} (h : m.consumed.toNat + amount.toNat ≤ m.limit.toNat) :
    m.charge amount = (.ok (), { m with consumed := m.consumed + amount }) := by
  have hfits : m.consumed.toNat + amount.toNat ≤ Gas.most := Nat.le_trans h (Gas.toNat_le_most _)
  have hle : m.consumed + amount ≤ m.limit := by
    rw [UInt64.le_iff_toNat_le, Gas.toNat_add_of_le hfits]
    exact h
  simp only [charge, Gas.plus?_of_le hfits, if_pos hle]

theorem charge_of_lt {amount : Gas} (h : m.limit.toNat < m.consumed.toNat + amount.toNat) :
    m.charge amount = (.error (.outOfGas (Gas.plus m.consumed amount) m.limit), { m with consumed := m.limit }) := by
  -- A sum that is no gas figure is above every limit as well.
  by_cases hfits : m.consumed.toNat + amount.toNat ≤ Gas.most
  · have hlt : ¬ m.consumed + amount ≤ m.limit := by
      rw [UInt64.le_iff_toNat_le, Gas.toNat_add_of_le hfits]
      exact Nat.not_le_of_lt h
    simp only [charge, Gas.plus?_of_le hfits, if_neg hlt]
  · simp only [charge, Gas.plus?_of_lt (Nat.lt_of_not_le hfits)]

theorem limit_charge (amount : Gas) : (m.charge amount).2.limit = m.limit := by
  by_cases hle : m.consumed.toNat + amount.toNat ≤ m.limit.toNat
  · rw [charge_of_le hle]
  · rw [charge_of_lt (Nat.lt_of_not_le hle)]

theorem consumed_charge_of_le {amount : Gas} (h : m.consumed.toNat + amount.toNat ≤ m.limit.toNat) :
    (m.charge amount).2.consumed.toNat = m.consumed.toNat + amount.toNat := by
  rw [charge_of_le h]
  exact Gas.toNat_add_of_le (Nat.le_trans h (Gas.toNat_le_most _))

theorem le_of_charge (h : m.charge price = (.ok (), m')) : m.consumed.toNat + price.toNat ≤ m.limit.toNat := by
  by_cases hle : m.consumed.toNat + price.toNat ≤ m.limit.toNat
  · exact hle
  · rw [charge_of_lt (Nat.lt_of_not_le hle)] at h
    cases h

theorem consumed_of_charge (h : m.charge price = (.ok (), m')) : m'.consumed.toNat = m.consumed.toNat + price.toNat := by
  have hconsumed := consumed_charge_of_le (le_of_charge h)
  rw [h] at hconsumed
  exact hconsumed

theorem minus_of_charge (h : m.charge price = (.ok (), m')) : Gas.minus m'.consumed m.consumed = price := by
  have hconsumed := consumed_of_charge h
  apply UInt64.toNat_inj.mp
  rw [Gas.toNat_minus, hconsumed, Nat.add_sub_cancel_left]

theorem charge_alike (hsame : n.consumed = m.consumed) (h : m.charge price = (.ok (), m'))
    (hle : n.consumed.toNat + price.toNat ≤ n.limit.toNat) :
    ∃ n', n.charge price = (.ok (), n') ∧ n'.consumed = m'.consumed := by
  have hm := charge_of_le (le_of_charge h)
  rw [h] at hm
  cases hm
  refine ⟨_, charge_of_le hle, ?_⟩
  rw [hsame]

theorem Sound.charge (h : m.Sound) (amount : Gas) : m.Onward (m.charge amount).2 := by
  by_cases hle : m.consumed.toNat + amount.toNat ≤ m.limit.toNat
  · have hconsumed := consumed_charge_of_le hle
    rw [charge_of_le hle] at hconsumed ⊢
    refine ⟨rfl, ?_, ?_, h.limit⟩
    · rw [hconsumed]
      exact Nat.le_add_right _ _
    · rw [hconsumed]
      exact hle
  · rw [charge_of_lt (Nat.lt_of_not_le hle)]
    exact ⟨rfl, h.consumed, Nat.le_refl _, h.limit⟩

theorem Sound.setRemaining (h : m.Sound) (remaining : Gas) : m.Onward (m.setRemaining remaining) := by
  have hconsumed := h.consumed
  have hlimit := h.limit
  have hmost := Gas.toNat_le_most m.consumed
  have hplus := Gas.toNat_plus m.consumed remaining
  have hleast := Gas.toNat_least (Gas.plus m.consumed remaining) m.cap
  refine ⟨rfl, Nat.le_refl _, ?_, ?_⟩
  · show m.consumed.toNat ≤ (Gas.least (Gas.plus m.consumed remaining) m.cap).toNat
    split at hplus <;> split at hleast <;> omega
  · show (Gas.least (Gas.plus m.consumed remaining) m.cap).toNat ≤ m.cap.toNat
    split at hleast <;> omega

theorem toNat_remaining_setRemaining (h : m.consumed.toNat ≤ m.cap.toNat) (remaining : Gas) :
    (m.setRemaining remaining).remaining.toNat = min remaining.toNat (m.cap.toNat - m.consumed.toNat) := by
  have hmost := Gas.toNat_le_most m.cap
  have hplus := Gas.toNat_plus m.consumed remaining
  have hleast := Gas.toNat_least (Gas.plus m.consumed remaining) m.cap
  rw [toNat_remaining]
  show (Gas.least (Gas.plus m.consumed remaining) m.cap).toNat - m.consumed.toNat = _
  -- A sum that stays at the largest word is not below the budget.
  split at hplus <;> split at hleast <;> omega

/-- What a frame has left that was told how much a script has left within its limit. -/
theorem toNat_remaining_told {used limit : Gas} (hcap : m.cap = limit)
    (hconsumed : m.consumed.toNat ≤ used.toNat) (hused : used.toNat ≤ limit.toNat) :
    (m.setRemaining (Gas.minus limit used)).remaining.toNat = limit.toNat - used.toNat := by
  rw [toNat_remaining_setRemaining (hcap ▸ Nat.le_trans hconsumed hused), Gas.toNat_minus, hcap]
  omega

theorem Sound.meterAfter {W : Type} [World W] (h : m.Sound) (s : Scope W) (c : Command) :
    m.Onward (c.meterAfter s m) := by
  cases c with
  | setRemainingGas remaining => exact h.setRemaining remaining
  | setStorage | removeStorage | readStorage | send | event => exact h.charge _
  | _ => exact h.onward

end Meter

end ContractHost
