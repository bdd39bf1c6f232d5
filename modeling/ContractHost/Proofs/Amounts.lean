import Mathlib.Algebra.Group.Nat.Defs
import ContractHost.Amount
/-!
# Amounts as bytes and as text

The shortest bytes and the decimal text of an amount are read back as the amount if it fits 32 bytes, and nothing that
is read from bytes or from a text is larger.
-/
namespace ContractHost

/-! ## Digits -/

namespace Radix

variable {base n k : Nat}

theorem length_digits_le_iff (hb : 1 < base) : (digits base n).length ≤ k ↔ n < base ^ k := by
  have hbase : 0 < base := Nat.lt_of_succ_lt hb
  induction k generalizing n with
  | zero =>
    by_cases hn : 0 < n
    · rw [digits_of_pos hb hn, List.length_append, List.length_singleton, Nat.pow_zero]
      omega
    · obtain rfl : n = 0 := by omega
      simp
  | succ k ih =>
    by_cases hn : 0 < n
    · rw [digits_of_pos hb hn, List.length_append, List.length_singleton, Nat.add_le_add_iff_right, Nat.pow_succ]
      exact Iff.trans ih (Nat.div_lt_iff_lt_mul hbase)
    · obtain rfl : n = 0 := by omega
      simp [Nat.pow_pos hbase]

theorem head?_digits_ne_zero (hb : 1 < base) : (digits base n).head? ≠ some 0 := by
  induction n using Nat.strongRecOn with
  | ind n ih =>
    by_cases hn : 0 < n
    · rw [digits_of_pos hb hn, List.head?_append]
      have hhigh := ih (n / base) (Nat.div_lt_self hn hb)
      cases hdigits : (digits base (n / base)).head? with
      | some d =>
        rw [hdigits] at hhigh
        exact hhigh
      | none =>
        have hempty : digits base (n / base) = [] := List.head?_eq_none_iff.mp hdigits
        have hzero : n / base = 0 := by
          rw [← value_digits hb (n / base), hempty]
          rfl
        have hlow : n % base = n := by
          have hsplit := Nat.div_add_mod n base
          rw [hzero] at hsplit
          omega
        simp only [Option.none_or, List.head?_cons, hlow, ne_eq, Option.some.injEq]
        omega
    · obtain rfl : n = 0 := by omega
      simp

private theorem foldl_lt {ds : List Nat} (hds : ∀ d ∈ ds, d < base) (start : Nat) :
    ds.foldl (fun n d => n * base + d) start < (start + 1) * base ^ ds.length := by
  induction ds generalizing start with
  | nil => simp
  | cons d ds ih =>
    have hd : d < base := hds d List.mem_cons_self
    have hrest := ih (fun e he => hds e (List.mem_cons_of_mem _ he)) (start * base + d)
    have hstart : start * base + d + 1 ≤ (start + 1) * base := by
      rw [Nat.succ_mul]
      omega
    calc (d :: ds).foldl (fun n d => n * base + d) start
        < (start * base + d + 1) * base ^ ds.length := hrest
      _ ≤ (start + 1) * base * base ^ ds.length := Nat.mul_le_mul_right _ hstart
      _ = (start + 1) * base ^ (d :: ds).length := by
          rw [List.length_cons, Nat.pow_succ, Nat.mul_assoc, Nat.mul_comm base]

theorem value_lt {ds : List Nat} (hds : ∀ d ∈ ds, d < base) : value base ds < base ^ ds.length := by
  have hlt := foldl_lt hds 0
  rw [Nat.zero_add, Nat.one_mul] at hlt
  exact hlt

end Radix

/-! ## Bytes -/

namespace Bytes

theorem length_ofNat_le_iff {n k : Nat} : (ofNat n).length ≤ k ↔ n < 256 ^ k := by
  rw [ofNat, List.length_map]
  exact Radix.length_digits_le_iff (by decide)

theorem significant_ofNat (n : Nat) : significant (ofNat n) = ofNat n := by
  have hhead : (Radix.digits 256 n).head? ≠ some 0 := Radix.head?_digits_ne_zero (by decide)
  have hdigits : ∀ d ∈ Radix.digits 256 n, d < 256 := Radix.lt_of_mem_digits (by decide) n
  rw [significant, ofNat]
  cases hds : Radix.digits 256 n with
  | nil => rfl
  | cons d ds =>
    rw [hds] at hhead hdigits
    have hpos : d ≠ 0 := by simpa using hhead
    have hlt : d < 256 := hdigits d List.mem_cons_self
    have hbyte : (UInt8.ofNat d == 0) = false := by
      rw [beq_eq_false_iff_ne]
      intro hzero
      have hnat := congrArg UInt8.toNat hzero
      rw [UInt8.toNat_ofNat'] at hnat
      have hmod : d % 256 = 0 := hnat
      omega
    rw [List.map_cons, List.dropWhile_cons, hbyte]
    rfl

theorem toNat_significant (b : Bytes) : toNat (significant b) = toNat b := by
  induction b with
  | nil => rfl
  | cons x b ih =>
    by_cases hx : x = 0
    · subst hx
      have hzero : toNat (0 :: b) = toNat b := rfl
      rw [hzero, ← ih]
      rfl
    · have hbyte : (x == 0) = false := by simpa using hx
      rw [significant, List.dropWhile_cons, hbyte]
      rfl

theorem toNat_lt (b : Bytes) : toNat b < 256 ^ b.length := by
  have hdigits : ∀ d ∈ b.map UInt8.toNat, d < 256 := by
    intro d hd
    obtain ⟨x, -, rfl⟩ := List.mem_map.mp hd
    exact x.toNat_lt
  have hlt := Radix.value_lt hdigits
  rw [List.length_map] at hlt
  exact hlt

end Bytes

/-! ## Decimal text -/

namespace Decimal

theorem value?_digit : ∀ d < 10, value? (digit d) = some d := by decide

theorem digit_ne : ∀ d < 10, digit d ≠ '+' ∧ digit d ≠ '_' := by decide

theorem mapM_value?_digit {ds : List Nat} (hds : ∀ d ∈ ds, d < 10) : (ds.map digit).mapM value? = some ds := by
  induction ds with
  | nil => rfl
  | cons d ds ih =>
    have hd := value?_digit d (hds d List.mem_cons_self)
    have hrest := ih fun e he => hds e (List.mem_cons_of_mem _ he)
    simp [hd, hrest]

theorem digit_eq_zero : ∀ d < 10, digit d = '0' → d = 0 := by decide

/-- The digits of a text as numbers. Zero is written with a digit, though it has none; no other number begins with it. -/
theorem chars_eq_map (n : Nat) :
    ∃ d ds, chars n = (d :: ds).map digit ∧ (∀ e ∈ d :: ds, e < 10) ∧ Radix.value 10 (d :: ds) = n ∧
      (d = 0 → ds = []) := by
  by_cases hn : n = 0
  · subst hn
    exact ⟨0, [], rfl, by simp, rfl, fun _ => rfl⟩
  · have hvalue : Radix.value 10 (Radix.digits 10 n) = n := Radix.value_digits (by decide) n
    have hlt : ∀ d ∈ Radix.digits 10 n, d < 10 := Radix.lt_of_mem_digits (by decide) n
    have hhead : (Radix.digits 10 n).head? ≠ some 0 := Radix.head?_digits_ne_zero (by decide)
    cases hds : Radix.digits 10 n with
    | nil =>
      rw [hds] at hvalue
      exact absurd hvalue.symm hn
    | cons d ds =>
      rw [hds] at hvalue hlt hhead
      refine ⟨d, ds, ?_, hlt, hvalue, ?_⟩
      · rw [chars, if_neg hn, hds]
      · intro hd
        rw [hd] at hhead
        exact absurd rfl hhead

theorem ofDigits?_chars (n : Nat) : ofDigits? (chars n) = some n := by
  obtain ⟨d, ds, hchars, hlt, hvalue, -⟩ := chars_eq_map n
  have hmap := mapM_value?_digit hlt
  rw [List.map_cons] at hchars hmap
  rw [hchars, ofDigits?, hmap, Option.map_some, hvalue]

theorem dropPlus_chars (n : Nat) : dropPlus (chars n) = chars n := by
  obtain ⟨d, ds, hchars, hlt, -⟩ := chars_eq_map n
  have hplus := (digit_ne d (hlt d List.mem_cons_self)).1
  rw [hchars, List.map_cons, dropPlus]
  intro rest heq
  exact hplus (List.cons.inj heq).1

theorem lenient?_chars (n : Nat) : lenient? (chars n) = some n := by
  obtain ⟨d, ds, hchars, hlt, -⟩ := chars_eq_map n
  have hbar : ∀ c ∈ chars n, decide (c ≠ '_') = true := by
    intro c hc
    rw [hchars, List.mem_map] at hc
    obtain ⟨e, he, rfl⟩ := hc
    exact decide_eq_true (digit_ne e (hlt e he)).2
  have hfilter : (chars n).filter (· ≠ '_') = chars n := List.filter_eq_self.mpr hbar
  rw [lenient?, dropPlus_chars]
  split
  · rename_i rest heq
    have hhead := hbar '_' (heq ▸ List.mem_cons_self)
    simp at hhead
  · rw [hfilter, ofDigits?_chars]

end Decimal

/-! ## Amounts -/

namespace Amount

variable {a : Amount} {b : Bytes}

/-- An amount that fits 32 bytes. -/
def Fits (a : Amount) : Prop :=
  a < 2 ^ 256

instance : Decidable a.Fits :=
  inferInstanceAs (Decidable (a < 2 ^ 256))

theorem fits_iff : a.Fits ↔ (toBytes a).length ≤ maxBytes := by
  rw [toBytes, Bytes.length_ofNat_le_iff]
  rfl

theorem ofBytes_toBytes (h : a.Fits) : ofBytes (toBytes a) = .ok a := by
  have hsize : ¬ maxBytes < (Bytes.significant (toBytes a)).length := by
    rw [toBytes, Bytes.significant_ofNat]
    exact Nat.not_lt_of_le (fits_iff.mp h)
  simp only [ofBytes, if_neg hsize]
  rw [toBytes, Bytes.toNat_ofNat]

theorem toNat_of_ofBytes (h : ofBytes b = .ok a) : Bytes.toNat b = a := by
  simp only [ofBytes] at h
  split at h
  · cases h
  · cases h
    rfl

theorem fits_of_ofBytes (h : ofBytes b = .ok a) : a.Fits := by
  simp only [ofBytes] at h
  split at h
  · cases h
  · rename_i hsize
    cases h
    calc Bytes.toNat b
        = Bytes.toNat (Bytes.significant b) := (Bytes.toNat_significant b).symm
      _ < 256 ^ (Bytes.significant b).length := Bytes.toNat_lt _
      _ ≤ 256 ^ maxBytes := Nat.pow_le_pow_right (by decide) (Nat.le_of_not_lt hsize)
      _ = 2 ^ 256 := rfl

theorem ofText_text (h : a.Fits) : ofText (text a) = .ok a := by
  have hsize : ¬ maxBytes < (toBytes a).length := Nat.not_lt_of_le (fits_iff.mp h)
  rw [ofText, text, Decimal.text, String.toList_ofList, Decimal.lenient?_chars]
  simp only [if_neg hsize]

theorem fits_of_ofText {s : String} (h : ofText s = .ok a) : a.Fits := by
  simp only [ofText] at h
  split at h
  · cases h
  · split at h
    · cases h
    · rename_i hsize
      cases h
      exact fits_iff.mpr (Nat.le_of_not_lt hsize)

end Amount

end ContractHost
