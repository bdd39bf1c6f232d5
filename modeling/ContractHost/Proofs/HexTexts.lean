import ContractHost.Bytes
import ContractHost.OrderedMap
/-!
# Hexadecimal texts that were written

Two digits for a byte are read back as the byte, and texts stand in the order of the byte strings that they denote.
-/
namespace ContractHost

theorem Bytes.ofText_ofList (cs : List Char) : ofText (String.ofList cs) = cs.flatMap String.utf8EncodeChar := by
  simp [ofText, String.toUTF8, List.utf8Encode]

namespace Hex

open OrderedKey (before)

def code (n : Nat) : UInt8 :=
  UInt8.ofNat (digit n).toNat

theorem value?_code : ∀ n < 16, value? (code n) = some n := by decide

theorem utf8EncodeChar_digit : ∀ n < 16, String.utf8EncodeChar (digit n) = [code n] := by decide

theorem code_lt_code : ∀ m < 16, ∀ n < 16, code m < code n ↔ m < n := by decide

theorem high_lt (x : UInt8) : x.toNat / 16 < 16 := by
  have hx := x.toNat_lt
  omega

theorem low_lt (x : UInt8) : x.toNat % 16 < 16 :=
  Nat.mod_lt _ (by decide)

/-- The UTF-8 form of the text of a byte string. -/
def codes : Bytes → Bytes
  | [] => []
  | x :: b => code (x.toNat / 16) :: code (x.toNat % 16) :: codes b

theorem ofText_encode (b : Bytes) : Bytes.ofText (encode b) = codes b := by
  rw [encode, Bytes.ofText_ofList]
  induction b with
  | nil => rfl
  | cons x b ih =>
    have hhigh := utf8EncodeChar_digit _ (high_lt x)
    have hlow := utf8EncodeChar_digit _ (low_lt x)
    simp only [List.flatMap_cons, List.cons_append, List.nil_append, hhigh, hlow, codes, ih]

theorem length_codes (b : Bytes) : (codes b).length = 2 * b.length := by
  induction b with
  | nil => rfl
  | cons x b ih =>
    rw [codes, List.length_cons, List.length_cons, ih, List.length_cons]
    omega

theorem readPairs_of_values {cs b : Bytes} (h : cs.map value? = (codes b).map value?) (position : Nat) :
    readPairs position cs = .ok b := by
  induction b generalizing cs position with
  | nil =>
    obtain rfl : cs = [] := List.map_eq_nil_iff.mp h
    rfl
  | cons x b ih =>
    rw [codes, List.map_cons, List.map_cons, value?_code _ (high_lt x), value?_code _ (low_lt x)] at h
    obtain ⟨c, rest, rfl, hc, h⟩ := List.map_eq_cons_iff.mp h
    obtain ⟨d, rest, rfl, hd, h⟩ := List.map_eq_cons_iff.mp h
    have hhigh : digitAt position c = .ok (x.toNat / 16) := by rw [digitAt, hc]
    have hlow : digitAt (position + 1) d = .ok (x.toNat % 16) := by rw [digitAt, hd]
    have hbyte : UInt8.ofNat (16 * (x.toNat / 16) + x.toNat % 16) = x := by
      rw [Nat.div_add_mod, UInt8.ofNat_toNat]
    rw [readPairs, hhigh, hlow, ih h]
    exact congrArg (fun y => Except.ok (y :: b)) hbyte

theorem decodeCodes_of_values {cs b : Bytes} (h : cs.map value? = (codes b).map value?) : decodeCodes cs = .ok b := by
  have hlength : cs.length = 2 * b.length := by
    rw [← length_codes b, ← List.length_map value?, h, List.length_map]
  have heven : ¬ cs.length % 2 = 1 := by omega
  rw [decodeCodes, if_neg heven, readPairs_of_values h]

theorem decodeCodes_codes (b : Bytes) : decodeCodes (codes b) = .ok b :=
  decodeCodes_of_values rfl

theorem decode_encode (b : Bytes) : decode (encode b) = .ok b := by
  rw [decode, ofText_encode, decodeCodes_codes]

/-- The texts of byte strings stand in the order of the byte strings. -/
theorem before_codes (b c : Bytes) : before (codes b) (codes c) = before b c := by
  show listBefore (codes b) (codes c) = listBefore b c
  induction b generalizing c with
  | nil => cases c <;> rfl
  | cons x b ih =>
    cases c with
    | nil => rfl
    | cons y c =>
      have hhigh := code_lt_code _ (high_lt x) _ (high_lt y)
      have hhigh' := code_lt_code _ (high_lt y) _ (high_lt x)
      have hlow := code_lt_code _ (low_lt x) _ (low_lt y)
      have hlow' := code_lt_code _ (low_lt y) _ (low_lt x)
      have hlt : x < y ↔ x.toNat < y.toNat := UInt8.lt_iff_toNat_lt
      have hlt' : y < x ↔ y.toNat < x.toNat := UInt8.lt_iff_toNat_lt
      simp only [codes, listBefore, before, ih, decide_eq_true_eq, hhigh, hhigh', hlow, hlow', hlt, hlt']
      -- The bytes differ as their high digits do, or else as their low digits do.
      rcases Nat.lt_trichotomy x.toNat y.toNat with hxy | hxy | hxy
      · have hdigits : x.toNat / 16 < y.toNat / 16 ∨
            ¬ y.toNat / 16 < x.toNat / 16 ∧ x.toNat % 16 < y.toNat % 16 := by omega
        rcases hdigits with hd | ⟨hd, hd'⟩
        · simp [hxy, hd]
        · simp [hxy, hd, hd']
      · simp [hxy]
      · have hdigits : y.toNat / 16 < x.toNat / 16 ∨
            ¬ x.toNat / 16 < y.toNat / 16 ∧ y.toNat % 16 < x.toNat % 16 := by omega
        have hnot : ¬ x.toNat < y.toNat := Nat.lt_asymm hxy
        rcases hdigits with hd | ⟨hd, hd'⟩
        · simp [hxy, hnot, hd, Nat.lt_asymm hd]
        · simp [hxy, hnot, hd, hd', Nat.lt_asymm hd']

end Hex

end ContractHost
