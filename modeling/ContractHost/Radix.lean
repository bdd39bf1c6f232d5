/-!
# Positional notation

A natural number and its digits in a base, most significant first. Zero has no digits, so the digits of a number are the
shortest list with its value.
-/
namespace ContractHost

namespace Radix

/-- The number that a list of digits denotes, most significant digit first. -/
def value (base : Nat) (digits : List Nat) : Nat :=
  digits.foldl (fun n d => n * base + d) 0

/-- The digits of a number, least significant first. A base below two has no digits. -/
def lowFirst (base n : Nat) : List Nat :=
  if _h : 1 < base ∧ 0 < n then n % base :: lowFirst base (n / base) else []
termination_by n
decreasing_by exact Nat.div_lt_self _h.2 _h.1

def digits (base n : Nat) : List Nat :=
  (lowFirst base n).reverse

theorem value_append_singleton (base : Nat) (ds : List Nat) (d : Nat) :
    value base (ds ++ [d]) = value base ds * base + d := by
  simp [value]

@[simp] theorem digits_zero (base : Nat) : digits base 0 = [] := by
  simp [digits, lowFirst]

theorem digits_of_pos {base n : Nat} (hb : 1 < base) (hn : 0 < n) :
    digits base n = digits base (n / base) ++ [n % base] := by
  rw [digits, lowFirst, dif_pos ⟨hb, hn⟩, List.reverse_cons, digits]

/-- Digits denote the number they were taken from. -/
theorem value_digits {base : Nat} (hb : 1 < base) (n : Nat) : value base (digits base n) = n := by
  induction n using Nat.strongRecOn with
  | ind n ih =>
    by_cases hn : 0 < n
    · rw [digits_of_pos hb hn, value_append_singleton, ih _ (Nat.div_lt_self hn hb)]
      rw [Nat.mul_comm]
      exact Nat.div_add_mod n base
    · obtain rfl : n = 0 := by omega
      simp [value]

theorem lt_of_mem_digits {base : Nat} (hb : 1 < base) (n : Nat) : ∀ d ∈ digits base n, d < base := by
  induction n using Nat.strongRecOn with
  | ind n ih =>
    by_cases hn : 0 < n
    · rw [digits_of_pos hb hn]
      intro d hd
      rcases List.mem_append.1 hd with h | h
      · exact ih _ (Nat.div_lt_self hn hb) d h
      · rw [List.mem_singleton.1 h]
        exact Nat.mod_lt _ (by omega)
    · obtain rfl : n = 0 := by omega
      simp

end Radix

/-! ## Decimal text

Numbers are written without leading zeros. Two readers: a lenient one, which skips underscores after the first digit,
and a plain one for words of a fixed width. Both take one leading plus sign.
-/

namespace Decimal

def digit (n : Nat) : Char :=
  Char.ofNat (48 + n)

def value? (c : Char) : Option Nat :=
  if '0' ≤ c ∧ c ≤ '9' then some (c.toNat - 48) else none

/-- The decimal digits of a number, `0` for zero. -/
def chars (n : Nat) : List Char :=
  if n = 0 then ['0'] else (Radix.digits 10 n).map digit

def text (n : Nat) : String :=
  String.ofList (chars n)

def integerText : Int → String
  | .ofNat n => text n
  | .negSucc n => "-" ++ text (n + 1)

/-- The number that a list of digits denotes, if all are digits and there is one. -/
def ofDigits? : List Char → Option Nat
  | [] => none
  | c :: cs => ((c :: cs).mapM value?).map (Radix.value 10)

/-- A text without its leading plus sign. A second sign keeps the first one in place. -/
def dropPlus : List Char → List Char
  | '+' :: rest => if rest.head? = some '+' then '+' :: rest else rest
  | cs => cs

/-- Reads a number of any size. Underscores are skipped, but not in front. -/
def lenient? (s : List Char) : Option Nat :=
  match dropPlus s with
  | '_' :: _ => none
  | cs => ofDigits? (cs.filter (· ≠ '_'))

def word? (width : Nat) (s : List Char) : Option Nat :=
  match ofDigits? (dropPlus s) with
  | some n => if n < Nat.pow 2 width then some n else none
  | none => none

end Decimal

end ContractHost
