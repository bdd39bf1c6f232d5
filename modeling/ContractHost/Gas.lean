/-!
# Gas figures

Gas is counted in words of 64 bits. Sums and products that do not fit stay at the largest word.
-/
namespace ContractHost

abbrev Gas := UInt64

namespace Gas

def most : Nat := 18446744073709551615

/-- The largest gas figure that is at most a number. -/
def saturate (n : Nat) : Gas :=
  if n ≤ most then UInt64.ofNat n else UInt64.ofNat most

def plus (a b : UInt64) : Gas :=
  saturate (a.toNat + b.toNat)

def plus? (a b : UInt64) : Option Gas :=
  if a.toNat + b.toNat ≤ most then some (a + b) else none

def times (price : UInt64) (n : Nat) : Gas :=
  saturate (price.toNat * n)

/-- What is left of a gas figure; zero if the other one is larger. -/
def minus (a b : UInt64) : Gas :=
  saturate (a.toNat - b.toNat)

def least (a b : UInt64) : Gas :=
  if a ≤ b then a else b

def greatest (a b : UInt64) : Gas :=
  if a ≤ b then b else a

theorem toNat_le_most (a : UInt64) : a.toNat ≤ most := by
  have := a.toNat_lt
  simp only [most]
  omega

theorem toNat_saturate_of_le {n : Nat} (h : n ≤ most) : (saturate n).toNat = n := by
  rw [saturate, if_pos h]
  simp only [most] at h
  simpa using Nat.mod_eq_of_lt (show n < 18446744073709551616 by omega)

theorem toNat_saturate_of_lt {n : Nat} (h : most < n) : (saturate n).toNat = most := by
  rw [saturate, if_neg (by omega)]
  rfl

theorem toNat_saturate (n : Nat) : (saturate n).toNat = if n ≤ most then n else most := by
  split
  · exact toNat_saturate_of_le ‹_›
  · exact toNat_saturate_of_lt (by omega)

theorem toNat_plus (a b : UInt64) :
    (plus a b).toNat = if a.toNat + b.toNat ≤ most then a.toNat + b.toNat else most :=
  toNat_saturate _

theorem plus?_of_le {a b : UInt64} (h : a.toNat + b.toNat ≤ most) : plus? a b = some (a + b) :=
  if_pos h

theorem plus?_of_lt {a b : UInt64} (h : most < a.toNat + b.toNat) : plus? a b = none :=
  if_neg (Nat.not_le_of_lt h)

theorem toNat_add_of_le {a b : UInt64} (h : a.toNat + b.toNat ≤ most) : (a + b).toNat = a.toNat + b.toNat := by
  have hfits : a.toNat + b.toNat < 2 ^ 64 := Nat.lt_succ_of_le h
  rw [UInt64.toNat_add, Nat.mod_eq_of_lt hfits]

theorem toNat_minus (a b : UInt64) : (minus a b).toNat = a.toNat - b.toNat :=
  toNat_saturate_of_le (by have := toNat_le_most a; omega)

theorem plus_zero (a : UInt64) : plus a 0 = a := by
  have hmost : a.toNat + (0 : UInt64).toNat ≤ most := toNat_le_most a
  apply UInt64.toNat_inj.mp
  rw [toNat_plus, if_pos hmost]
  rfl

theorem minus_self (a : UInt64) : minus a a = 0 := by
  apply UInt64.toNat_inj.mp
  rw [toNat_minus, Nat.sub_self]
  rfl

theorem le_plus (a b : UInt64) : a.toNat ≤ (plus a b).toNat := by
  have hmost := toNat_le_most a
  have hplus := toNat_plus a b
  split at hplus <;> omega

theorem toNat_plus_of_left {used limit more : UInt64} (h : more.toNat ≤ limit.toNat - used.toNat) :
    (plus used more).toNat = used.toNat + more.toNat := by
  have hused := toNat_le_most used
  have hlimit := toNat_le_most limit
  rw [toNat_plus, if_pos (by omega)]

theorem toNat_least (a b : UInt64) :
    (least a b).toNat = if a.toNat ≤ b.toNat then a.toNat else b.toNat := by
  simp only [least, UInt64.le_iff_toNat_le]
  split <;> rfl

theorem toNat_greatest (a b : UInt64) :
    (greatest a b).toNat = if a.toNat ≤ b.toNat then b.toNat else a.toNat := by
  simp only [greatest, UInt64.le_iff_toNat_le]
  split <;> rfl

end Gas

end ContractHost
