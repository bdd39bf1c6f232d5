import Mathlib.Data.List.Induction
import Mathlib.Data.List.TakeWhile
import Mathlib.Data.Nat.Digits.Defs
import ContractHost.Proofs.Amounts
/-!
# The forms of an amount

The bytes of an amount are the shortest ones with its value, and every other byte string with that value has zeros in
front of them. An amount is read back from its bytes and from its decimal text on the same condition, that it is below
`2 ^ 256`.
-/
namespace ContractHost

namespace Bytes

variable {b c : Bytes} {n : Nat}

/-- The number whose digits in base 256 the bytes are, the lowest one last. -/
def placeValue (b : List UInt8) : Nat :=
  Nat.ofDigits 256 (b.reverse.map UInt8.toNat)

theorem toNat_eq_placeValue (b : Bytes) : toNat b = placeValue b := by
  induction b using List.reverseRecOn with
  | nil => rfl
  | append_singleton b x ih =>
    have hvalue : toNat (b ++ [x]) = toNat b * 256 + x.toNat := by
      rw [toNat, List.map_append]
      exact Radix.value_append_singleton 256 _ _
    rw [hvalue, ih, placeValue, placeValue, List.reverse_append, List.reverse_singleton, List.singleton_append,
      List.map_cons, Nat.ofDigits_cons]
    omega

theorem placeValue_ofNat (n : Nat) : placeValue (ofNat n) = n := by
  rw [← toNat_eq_placeValue, toNat_ofNat]

theorem placeValue_zeros_append (zeros : Nat) (b : Bytes) : placeValue (List.replicate zeros 0 ++ b) = placeValue b := by
  simp [placeValue, Nat.ofDigits_append_replicate_zero]

theorem digits_placeValue (h : b.head? ≠ some 0) : Nat.digits 256 (placeValue b) = b.reverse.map UInt8.toNat := by
  apply Nat.digits_ofDigits 256 (by decide)
  · intro d hd
    obtain ⟨x, -, rfl⟩ := List.mem_map.mp hd
    exact x.toNat_lt
  · intro hne hlast
    cases b with
    | nil => exact hne rfl
    | cons x b =>
      have hzero : x.toNat = 0 := by simpa using hlast
      exact h (congrArg some (UInt8.toNat_inj.mp hzero))

theorem placeValue_inj (hb : b.head? ≠ some 0) (hc : c.head? ≠ some 0) (h : placeValue b = placeValue c) : b = c := by
  have hdigits := (digits_placeValue hb).symm.trans ((congrArg (Nat.digits 256) h).trans (digits_placeValue hc))
  have hreverse := (List.map_inj_right fun _ _ hbyte => UInt8.toNat_inj.mp hbyte).mp hdigits
  exact List.reverse_inj.mp hreverse

theorem head?_significant_ne_zero (b : Bytes) : (significant b).head? ≠ some 0 := by
  have hhead := List.head?_dropWhile_not (· == 0) b
  rw [significant]
  intro hzero
  rw [hzero] at hhead
  cases hhead

theorem significant_eq_ofNat (b : Bytes) : significant b = ofNat (placeValue b) := by
  have hhead : (ofNat (placeValue b)).head? ≠ some 0 := significant_ofNat _ ▸ head?_significant_ne_zero _
  apply placeValue_inj (head?_significant_ne_zero b) hhead
  rw [← toNat_eq_placeValue, toNat_significant, placeValue_ofNat, toNat_eq_placeValue]

theorem exists_zeros_append (b : Bytes) : ∃ zeros, b = List.replicate zeros 0 ++ significant b := by
  have hzeros : b.takeWhile (· == 0) = List.replicate (b.takeWhile (· == 0)).length 0 := by
    rw [List.eq_replicate_iff]
    refine ⟨rfl, fun x hx => ?_⟩
    have hzero := List.mem_takeWhile_imp hx
    exact eq_of_beq hzero
  refine ⟨(b.takeWhile (· == 0)).length, ?_⟩
  rw [← hzeros, significant, List.takeWhile_append_dropWhile]

/-- The byte strings of a value are its shortest one with zeros in front. -/
theorem placeValue_eq_iff : placeValue b = n ↔ ∃ zeros, b = List.replicate zeros 0 ++ ofNat n := by
  constructor
  · rintro rfl
    rw [← significant_eq_ofNat]
    exact exists_zeros_append b
  · rintro ⟨zeros, rfl⟩
    rw [placeValue_zeros_append, placeValue_ofNat]

theorem eq_ofNat_iff : b = ofNat n ↔ placeValue b = n ∧ b.length ≤ (ofNat n).length := by
  constructor
  · rintro rfl
    exact ⟨placeValue_ofNat n, Nat.le_refl _⟩
  · rintro ⟨hvalue, hlength⟩
    obtain ⟨zeros, rfl⟩ := placeValue_eq_iff.mp hvalue
    rw [List.length_append, List.length_replicate] at hlength
    obtain rfl : zeros = 0 := by omega
    rfl

end Bytes

namespace Decimal

theorem digit_eq_digitChar : ∀ d < 10, digit d = Nat.digitChar d := by decide

theorem chars_of_lt {n : Nat} (h : n < 10) : chars n = [digit n] := by
  by_cases hn : n = 0
  · subst hn
    rfl
  · have hhigh : n / 10 = 0 := Nat.div_eq_of_lt h
    rw [chars, if_neg hn, Radix.digits_of_pos (by decide) (Nat.pos_of_ne_zero hn), hhigh, Radix.digits_zero,
      Nat.mod_eq_of_lt h]
    rfl

theorem chars_of_le {n : Nat} (h : 10 ≤ n) : chars n = chars (n / 10) ++ [digit (n % 10)] := by
  have hn : n ≠ 0 := by omega
  have hhigh : n / 10 ≠ 0 := by omega
  rw [chars, chars, if_neg hn, if_neg hhigh, Radix.digits_of_pos (by decide) (Nat.pos_of_ne_zero hn), List.map_append]
  rfl

theorem chars_eq_toDigits (n : Nat) : chars n = Nat.toDigits 10 n := by
  induction n using Nat.strongRecOn with
  | ind n ih =>
    by_cases hsmall : n < 10
    · rw [chars_of_lt hsmall, Nat.toDigits_of_lt_base hsmall, digit_eq_digitChar n hsmall]
    · have hle : 10 ≤ n := Nat.le_of_not_lt hsmall
      have hlow : n % 10 < 10 := Nat.mod_lt n (by decide)
      rw [chars_of_le hle, ih (n / 10) (by omega), Nat.toDigits_of_base_le (by decide) hle, digit_eq_digitChar _ hlow]

theorem text_eq_repr (n : Nat) : text n = Nat.repr n :=
  congrArg String.ofList (chars_eq_toDigits n)

end Decimal

namespace Amount

variable {a : Amount} {b : Bytes}

theorem ofBytes_eq (b : Bytes) : ofBytes b =
    if Bytes.placeValue b < 2 ^ 256 then .ok (Bytes.placeValue b)
    else .error (.amountSize (b.dropWhile (· == 0)).length) := by
  have hsize : (Bytes.significant b).length ≤ maxBytes ↔ Bytes.placeValue b < 2 ^ 256 := by
    rw [Bytes.significant_eq_ofNat]
    exact fits_iff.symm
  simp only [ofBytes, ← Bytes.toNat_eq_placeValue] at hsize ⊢
  by_cases hfits : Bytes.toNat b < 2 ^ 256
  · rw [if_pos hfits, if_neg (Nat.not_lt_of_le (hsize.mpr hfits))]
  · rw [if_neg hfits, if_pos (Nat.lt_of_not_le (mt hsize.mp hfits))]
    rfl

theorem ofBytes_eq_ok_iff : ofBytes b = .ok a ↔ Bytes.placeValue b = a ∧ a < 2 ^ 256 := by
  constructor
  · intro h
    exact ⟨(Bytes.toNat_eq_placeValue b).symm.trans (toNat_of_ofBytes h), fits_of_ofBytes h⟩
  · rintro ⟨rfl, hfits⟩
    rw [ofBytes_eq, if_pos hfits]

theorem ofBytes_eq_error_iff :
    ofBytes b = .error (.amountSize (b.dropWhile (· == 0)).length) ↔ 2 ^ 256 ≤ Bytes.placeValue b := by
  rw [ofBytes_eq]
  split <;> rename_i hfits
  · exact iff_of_false nofun (Nat.not_le_of_lt hfits)
  · exact iff_of_true rfl (Nat.le_of_not_lt hfits)

theorem ofText_text_eq (a : Amount) : ofText (text a) = ofBytes (toBytes a) := by
  rw [ofText, text, Decimal.text, String.toList_ofList, Decimal.lenient?_chars]
  simp only [ofBytes, toBytes, Bytes.significant_ofNat, Bytes.toNat_ofNat]
  rfl

theorem ofBytes_toBytes_eq_ok_iff : ofBytes (toBytes a) = .ok a ↔ a < 2 ^ 256 :=
  ⟨fits_of_ofBytes, ofBytes_toBytes⟩

/-- The values that some bytes are read as are those that some text is read as. -/
theorem read_iff_read : (∃ b, ofBytes b = .ok a) ↔ ∃ s, ofText s = .ok a := by
  constructor
  · rintro ⟨b, hb⟩
    exact ⟨text a, ofText_text (fits_of_ofBytes hb)⟩
  · rintro ⟨s, hs⟩
    exact ⟨toBytes a, ofBytes_toBytes (fits_of_ofText hs)⟩

/-- Bytes are read as an amount exactly if they have its value and it is below the bound, and otherwise the bytes behind
the leading zeros are counted. The bytes of an amount are the only ones of their length or less with its value, and it is
read back from them as it is from its decimal text. -/
theorem forms_accepted (a : Amount) (b : Bytes) :
    (ofBytes b = .ok a ↔ Bytes.placeValue b = a ∧ a < 2 ^ 256) ∧
    (ofBytes b = .error (.amountSize (b.dropWhile (· == 0)).length) ↔ 2 ^ 256 ≤ Bytes.placeValue b) ∧
    (Bytes.placeValue b = a ↔ ∃ zeros, b = List.replicate zeros 0 ++ toBytes a) ∧
    (b = toBytes a ↔ Bytes.placeValue b = a ∧ b.length ≤ (toBytes a).length) ∧
    toBytes 0 = [] ∧
    (ofBytes (toBytes a) = .ok a ↔ a < 2 ^ 256) ∧
    text a = Nat.repr a ∧
    (ofText (text a) = .ok a ↔ a < 2 ^ 256) ∧
    ofText (text a) = ofBytes (toBytes a) ∧
    ((∃ b, ofBytes b = .ok a) ↔ ∃ s, ofText s = .ok a) := by
  refine ⟨ofBytes_eq_ok_iff, ofBytes_eq_error_iff, Bytes.placeValue_eq_iff, Bytes.eq_ofNat_iff, Bytes.ofNat_zero,
    ofBytes_toBytes_eq_ok_iff, Decimal.text_eq_repr a, ?_, ofText_text_eq a, read_iff_read⟩
  rw [ofText_text_eq]
  exact ofBytes_toBytes_eq_ok_iff

end Amount

end ContractHost
