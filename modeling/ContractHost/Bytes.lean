import ContractHost.Radix
/-!
# Byte strings

Contract data is a list of bytes. A byte string may be the UTF-8 form of a text or the big-endian form of a number, and it
is shown in hexadecimal digits.
-/
namespace ContractHost

abbrev Bytes := List UInt8

namespace Bytes

def ofText (s : String) : Bytes :=
  s.toUTF8.data.toList

/-- The text whose UTF-8 form the bytes are, if there is one. -/
def text? (b : List UInt8) : Option String :=
  String.fromUTF8? ⟨b.toArray⟩

/-- The number that the bytes denote, most significant byte first. -/
def toNat (b : List UInt8) : Nat :=
  Radix.value 256 (b.map UInt8.toNat)

/-- The shortest big-endian form of a number. Zero has the empty one. -/
def ofNat (n : Nat) : Bytes :=
  (Radix.digits 256 n).map UInt8.ofNat

/-- Bytes that are left after the leading zeros. -/
def significant (b : List UInt8) : Bytes :=
  b.dropWhile (· == 0)

@[simp] theorem text?_ofText (s : String) : text? (ofText s) = some s := by
  have h : (⟨s.toUTF8.data.toList.toArray⟩ : ByteArray) = s.toUTF8 := by simp
  simp only [text?, ofText, h]
  simp [String.fromUTF8?, String.fromUTF8, String.toUTF8, s.isValidUTF8]

theorem ofText_of_text? {b : Bytes} {s : String} (h : text? b = some s) : ofText s = b := by
  rw [text?, String.fromUTF8?] at h
  split at h
  · cases h
    rfl
  · cases h

@[simp] theorem toNat_ofNat (n : Nat) : toNat (ofNat n) = n := by
  have h : (ofNat n).map UInt8.toNat = Radix.digits 256 n := by
    rw [ofNat, List.map_map]
    conv => rhs; rw [← List.map_id (Radix.digits 256 n)]
    refine List.map_congr_left fun d hd => ?_
    have := Radix.lt_of_mem_digits (by decide) n d hd
    simpa using Nat.mod_eq_of_lt this
  rw [toNat, h, Radix.value_digits (by decide)]

@[simp] theorem ofNat_zero : ofNat 0 = [] := by
  simp [ofNat]

end Bytes

/-! ## Runs of equal length -/

/-- Runs of `n` elements from the front, the last one perhaps shorter. A run has at least one element. -/
def pieces.{u} {α : Type u} (n : Nat) : List α → List (List α)
  | [] => []
  | x :: xs => (x :: xs.take (n - 1)) :: pieces n (xs.drop (n - 1))
termination_by xs => xs.length
decreasing_by simp only [List.length_drop, List.length_cons]; omega

/-! ## Hexadecimal text

Two lower-case digits for a byte. Reading takes digits of either case and reports the first fault: an odd length before
any digit, then the first byte of the text that is no digit.
-/

namespace Hex

/-- Why a text is not hexadecimal. -/
inductive Error where
  /-- The text has an odd number of bytes. -/
  | oddLength
  /-- The byte `code` at `position` is no digit. -/
  | badDigit (code : UInt8) (position : Nat)
  deriving DecidableEq, Repr

def digit (n : Nat) : Char :=
  if n < 10 then Char.ofNat (48 + n) else Char.ofNat (87 + n)

def encode (b : List UInt8) : String :=
  String.ofList (b.flatMap fun x => [digit (x.toNat / 16), digit (x.toNat % 16)])

def value? (c : UInt8) : Option Nat :=
  if 48 ≤ c ∧ c ≤ 57 then some (c.toNat - 48)
  else if 97 ≤ c ∧ c ≤ 102 then some (c.toNat - 87)
  else if 65 ≤ c ∧ c ≤ 70 then some (c.toNat - 55)
  else none

def digitAt (position : Nat) (c : UInt8) : Except Error Nat :=
  match value? c with
  | some v => .ok v
  | none => .error (.badDigit c position)

def readPairs : Nat → List UInt8 → Except Error Bytes
  | _, [] => .ok []
  | _, [_] => .error .oddLength
  | position, high :: low :: rest => do
    let h ← digitAt position high
    let l ← digitAt (position + 1) low
    let bytes ← readPairs (position + 2) rest
    return UInt8.ofNat (16 * h + l) :: bytes

def decodeCodes (codes : List UInt8) : Except Error Bytes :=
  if codes.length % 2 = 1 then .error .oddLength else readPairs 0 codes

def decode (s : String) : Except Error Bytes :=
  decodeCodes (Bytes.ofText s)

/-- A byte as a character in single quotes: what does not print is escaped. -/
def quoted (code : UInt8) : String :=
  let body :=
    if code = 0 then "\\0"
    else if code = 9 then "\\t"
    else if code = 10 then "\\n"
    else if code = 13 then "\\r"
    else if code = 39 then "\\'"
    else if code = 92 then "\\\\"
    else if code < 32 ∨ (127 ≤ code ∧ code ≤ 160) ∨ code = 173 then
      "\\u\x7b" ++ String.ofList ((Radix.digits 16 code.toNat).map digit) ++ "\x7d"
    else String.singleton (Char.ofNat code.toNat)
  "'" ++ body ++ "'"

def Error.message : Error → String
  | .oddLength => "Odd number of digits"
  | .badDigit code position => "Invalid character " ++ quoted code ++ " at position " ++ toString position

end Hex

end ContractHost
