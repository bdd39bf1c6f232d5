import ContractHost.Proofs.Bech32Texts
import ContractHost.Proofs.HexTexts
/-!
# Texts of an address

An address is read back from its bech32m text, and from its hexadecimal text with either marker and with any of its
digits written as capitals.
-/
namespace ContractHost

namespace Hex

/-- A text with the chosen ones of its letters as capitals. -/
def raise (capital : Nat → Bool) (cs : List Char) : List Char :=
  cs.mapIdx fun i c => if capital i then c.toUpper else c

private def caseCode (capital : Bool) (n : Nat) : UInt8 :=
  UInt8.ofNat (if capital then (digit n).toUpper else digit n).toNat

theorem value?_caseCode : ∀ n < 16, ∀ capital, value? (caseCode capital n) = some n := by decide

theorem utf8EncodeChar_case : ∀ n < 16, ∀ capital,
    String.utf8EncodeChar (if capital then (digit n).toUpper else digit n) = [caseCode capital n] := by decide

theorem map_value?_raise (capital : Nat → Bool) (b : Bytes) :
    (Bytes.ofText (String.ofList (raise capital (encode b).toList))).map value? = (codes b).map value? := by
  rw [encode, String.toList_ofList, Bytes.ofText_ofList]
  induction b generalizing capital with
  | nil => rfl
  | cons x b ih =>
    have hhigh := high_lt x
    have hlow := low_lt x
    have hrest := ih fun i => capital (i + 1 + 1)
    simp only [raise, List.flatMap_cons, List.cons_append, List.nil_append, List.mapIdx_cons] at hrest ⊢
    simp [utf8EncodeChar_case _ hhigh, utf8EncodeChar_case _ hlow, value?_caseCode _ hhigh, value?_caseCode _ hlow,
      codes, value?_code _ hhigh, value?_code _ hlow, hrest]

theorem decode_raise (capital : Nat → Bool) (b : Bytes) :
    decode (String.ofList (raise capital (encode b).toList)) = .ok b :=
  decodeCodes_of_values (map_value?_raise capital b)

end Hex

namespace Address

theorem ofDigits_raise (capital : Nat → Bool) (a : Address) :
    ofDigits (String.ofList (Hex.raise capital a.hex.toList)) = .ok a := by
  rw [ofDigits, hex, Hex.decode_raise]
  exact a.ofBytes_bytes

theorem ofText_small (digits : List Char) : ofText ("0x" ++ String.ofList digits) = ofDigits (String.ofList digits) := by
  simp [ofText]

theorem ofText_capital (digits : List Char) : ofText ("0X" ++ String.ofList digits) = ofDigits (String.ofList digits) := by
  simp [ofText]

theorem ofText_hexText (a : Address) : ofText a.hexText = .ok a := by
  have hdigits : ofDigits a.hex = .ok a := by
    rw [ofDigits, hex, Hex.decode_encode]
    exact a.ofBytes_bytes
  rw [hexText, ← String.ofList_toList (s := a.hex), ofText_small, String.ofList_toList, hdigits]

/-- An address is read back from both its texts, with any digits of the second one as capitals and with either marker.
The first text is the human-readable part, 32 symbols with the bits of the address and six that make the checksum
right. -/
theorem ofText_texts (a : Address) :
    (∃ symbols sums : List Bech32.Symbol,
      a.text.toList = 'w' :: 'h' :: '1' :: (symbols ++ sums).map Bech32.letter ∧
      symbols.flatMap (fun s => Bech32.bits 5 s.toNat) = a.bytes.flatMap (fun x => Bech32.bits 8 x.toNat) ∧
      sums.length = 6 ∧ Bech32.residue part (symbols ++ sums) = Bech32.secondEdition) ∧
    ofText a.text = .ok a ∧
    ofText a.hexText = .ok a ∧
    ∀ capital : Nat → Bool,
      ofText ("0x" ++ String.ofList (Hex.raise capital a.hex.toList)) = .ok a ∧
      ofText ("0X" ++ String.ofList (Hex.raise capital a.hex.toList)) = .ok a := by
  refine ⟨⟨Bech32.toSymbols a.bytes, Bech32.checksum part (Bech32.toSymbols a.bytes), ?form, ?bits, ?length, ?sum⟩,
    a.ofText_text, a.ofText_hexText, ?digits⟩
  case form =>
    rw [text, Bech32.encode, String.toList_ofList]
    rfl
  case bits =>
    have hlength := a.length_eq
    exact Bech32.flatMap_toSymbols_of_whole (by omega)
  case length => exact Bech32.length_checksumOf _ _ _
  case sum => exact Bech32.residue_checksumOf _ _ _
  case digits =>
    intro capital
    rw [ofText_small, ofText_capital, ofDigits_raise]
    exact ⟨rfl, rfl⟩

end Address

end ContractHost
