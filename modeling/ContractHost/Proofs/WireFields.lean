import Mathlib.Algebra.Group.Nat.Defs
import ContractHost.Wire.Reader
/-!
# Reading fields that were written

A reader that finds what was written, with anything behind it, returns the value and what stands behind. For the fields
of a record this is said by `MergesTo`, which composes like the bytes do; it also says of fields that they cannot be
merged.
-/
namespace ContractHost.Wire

/-! ## Numbers -/

theorem putVarint_of_lt {n : Nat} (hn : n < 128) : putVarint n = [UInt8.ofNat n] := by
  rw [putVarint, if_pos hn]

theorem putVarint_of_not_lt {n : Nat} (hn : ¬ n < 128) :
    putVarint n = UInt8.ofNat (n % 128 + 128) :: putVarint (n / 128) := by
  rw [putVarint, if_neg hn]

theorem toNat_last {n : Nat} (hn : n < 128) : (UInt8.ofNat n).toNat = n := by
  rw [UInt8.toNat_ofNat']
  omega

theorem toNat_group (n : Nat) : (UInt8.ofNat (n % 128 + 128)).toNat = n % 128 + 128 := by
  rw [UInt8.toNat_ofNat']
  omega

theorem last_lt {n : Nat} (hn : n < 128) : UInt8.ofNat n < 128 := by
  rw [UInt8.lt_iff_toNat_lt, toNat_last hn]
  exact hn

theorem not_group_lt (n : Nat) : ¬ UInt8.ofNat (n % 128 + 128) < 128 := by
  rw [UInt8.lt_iff_toNat_lt, toNat_group]
  exact Nat.not_lt_of_le (Nat.le_add_left 128 (n % 128))

theorem varintFrom_putVarint {n place : Nat} (hplace : place ≤ 9) (hn : n < 2 ^ (64 - 7 * place)) (rest : Bytes) :
    varintFrom place (putVarint n ++ rest) = .ok (n, rest) := by
  induction n using putVarint.induct generalizing place with
  | case1 n hlow =>
    have hbit : ¬ (place = 9 ∧ 2 ≤ UInt8.ofNat n) := by
      rintro ⟨rfl, hle⟩
      rw [UInt8.le_iff_toNat_le, toNat_last hlow] at hle
      have htwo : n < 2 := hn
      have hle : 2 ≤ n := hle
      omega
    rw [putVarint_of_lt hlow, List.cons_append, List.nil_append, varintFrom, if_pos (last_lt hlow), if_neg hbit,
      toNat_last hlow]
  | case2 n hhigh ih =>
    -- There is a group after this one, so the place is not the last.
    have hplace' : place < 9 := by
      rcases Nat.lt_or_eq_of_le hplace with hlt | rfl
      · exact hlt
      · have htwo : n < 2 := hn
        omega
    have hshift : 64 - 7 * place = 64 - 7 * (place + 1) + 7 := by omega
    have hn' : n / 128 < 2 ^ (64 - 7 * (place + 1)) := by
      rw [hshift, Nat.pow_add] at hn
      exact Nat.div_lt_of_lt_mul (Nat.mul_comm _ _ ▸ hn)
    rw [putVarint_of_not_lt hhigh, List.cons_append, varintFrom, if_neg (not_group_lt n), if_neg (by omega),
      ih hplace' hn', toNat_group]
    show Except.ok (n % 128 + 128 - 128 + 128 * (n / 128), rest) = _
    have hvalue : n % 128 + 128 - 128 + 128 * (n / 128) = n := by omega
    rw [hvalue]

theorem varint_putVarint {n : Nat} (hn : n < 2 ^ 64) (rest : Bytes) : varint (putVarint n ++ rest) = .ok (n, rest) :=
  varintFrom_putVarint (Nat.zero_le _) hn rest

theorem putVarint_ne_nil (n : Nat) : putVarint n ≠ [] := by
  rw [putVarint]
  split <;> exact List.cons_ne_nil _ _

theorem length_putVarint_le_iff {n k : Nat} (hk : 0 < k) : (putVarint n).length ≤ k ↔ n < 128 ^ k := by
  induction n using putVarint.induct generalizing k with
  | case1 n hlow =>
    have hone : 128 ^ 1 ≤ 128 ^ k := Nat.pow_le_pow_right (by decide) hk
    rw [putVarint, if_pos hlow, List.length_singleton]
    omega
  | case2 n hhigh ih =>
    obtain ⟨k, rfl⟩ : ∃ j, k = j + 1 := ⟨k - 1, by omega⟩
    rw [putVarint, if_neg hhigh, List.length_cons, Nat.add_le_add_iff_right, Nat.pow_succ]
    rcases Nat.eq_zero_or_pos k with rfl | hpos
    · have hmore : 0 < (putVarint (n / 128)).length := List.length_pos_iff.mpr (putVarint_ne_nil _)
      omega
    · exact Iff.trans (ih hpos) (Nat.div_lt_iff_lt_mul (by decide))

theorem length_putVarint_le {m n : Nat} (h : m ≤ n) : (putVarint m).length ≤ (putVarint n).length := by
  have hpos : 0 < (putVarint n).length := List.length_pos_iff.mpr (putVarint_ne_nil n)
  exact (length_putVarint_le_iff hpos).mpr (Nat.lt_of_le_of_lt h ((length_putVarint_le_iff hpos).mp (Nat.le_refl _)))

/-! ## Keys -/

theorem key_putKey {tag : Nat} (w : WireType) (htag : tag ≠ 0) (hsmall : tag < 2 ^ 28) (rest : Bytes) :
    key (putKey tag w ++ rest) = .ok (⟨tag, w⟩, rest) := by
  have hcode : w.code < 8 := by cases w <;> decide
  have hlow : (tag * 8 + w.code) % 8 = w.code := by omega
  have hhigh : (tag * 8 + w.code) / 8 = tag := by omega
  have hfits : ¬ Nat.pow 2 32 ≤ tag * 8 + w.code := by
    show ¬ 2 ^ 32 ≤ tag * 8 + w.code
    omega
  have hvarint : varint (putKey tag w ++ rest) = .ok (tag * 8 + w.code, rest) := varint_putVarint (by omega) rest
  rw [key, hvarint]
  show (if Nat.pow 2 32 ≤ tag * 8 + w.code then _ else _) = _
  rw [if_neg hfits, hlow, WireType.ofCode?_code, hhigh]
  simp only [if_neg htag]
  rfl

theorem putKey_ne_nil (tag : Nat) (w : WireType) : putKey tag w ≠ [] :=
  putVarint_ne_nil _

/-! ## Values -/

theorem length_putVarint {n : Nat} {b : Bytes} (hn : n < 2 ^ 64) (hle : n ≤ b.length) :
    length (putVarint n ++ b) = .ok (n, b) := by
  have hroom : ¬ b.length < n := Nat.not_lt_of_le hle
  rw [length, varint_putVarint hn]
  show (if b.length < n then _ else _) = _
  rw [if_neg hroom]
  rfl

theorem byteString_put {b : Bytes} (hb : b.length < 2 ^ 64) (rest : Bytes) :
    byteString (putVarint b.length ++ b ++ rest) = .ok (b, rest) := by
  have hlength : length (putVarint b.length ++ (b ++ rest)) = .ok (b.length, b ++ rest) :=
    length_putVarint hb (by simp)
  rw [List.append_assoc, byteString, hlength]
  show Except.ok ((b ++ rest).take b.length, (b ++ rest).drop b.length) = _
  rw [List.take_left, List.drop_left]

theorem text_put {s : String} (hs : (Bytes.ofText s).length < 2 ^ 64) (rest : Bytes) :
    text (putVarint (Bytes.ofText s).length ++ Bytes.ofText s ++ rest) = .ok (s, rest) := by
  simp only [text, byteString_put hs, bind, Except.bind, Bytes.text?_ofText]
  rfl

/-! ## Records -/

variable {α : Type} {step : Step α} {a a' : α} {b b' : Bytes} {out : Except Error α}

/-- A round of reading fields, whatever stands behind the key. -/
theorem fieldsFor_putKey {tag limit : Nat} {w : WireType} (htag : tag ≠ 0) (hsmall : tag < 2 ^ 28)
    (hlimit : limit ≤ b.length) (rounds : Nat) :
    fieldsFor step limit (rounds + 1) a (putKey tag w ++ b) =
      step ⟨tag, w⟩ a b >>= fun (a, rest) => fieldsFor step limit rounds a rest := by
  have hkey : 0 < (putKey tag w).length := List.length_pos_iff.mpr (putKey_ne_nil tag w)
  have hmore : ¬ (putKey tag w ++ b).length ≤ limit := by
    rw [List.length_append]
    omega
  rw [fieldsFor, if_neg hmore, key_putKey w htag hsmall]
  rfl

/-- Merging the fields in `b` into `a` comes to `out`, wherever the record ends behind them. -/
def MergesTo (step : Step α) (b : Bytes) (a : α) (out : Except Error α) : Prop :=
  ∀ (limit rounds : Nat) (rest : Bytes), limit ≤ rest.length → b.length + rest.length ≤ limit + rounds →
    ∃ rounds', rest.length ≤ limit + rounds' ∧
      fieldsFor step limit rounds a (b ++ rest) = out >>= fun a' => fieldsFor step limit rounds' a' rest

/-- Merging the fields in `b` into `a` gives `a'`. -/
abbrev Merges (step : Step α) (b : Bytes) (a a' : α) : Prop :=
  MergesTo step b a (.ok a')

namespace MergesTo

theorem nil (step : Step α) (a : α) : Merges step [] a a := by
  intro limit rounds rest _ hrounds
  exact ⟨rounds, by simpa using hrounds, rfl⟩

theorem append (h : Merges step b a a') (h' : MergesTo step b' a' out) : MergesTo step (b ++ b') a out := by
  intro limit rounds rest hlimit hrounds
  have hsize : (b ++ b').length = b.length + b'.length := List.length_append
  have hmore : (b' ++ rest).length = b'.length + rest.length := List.length_append
  obtain ⟨rounds', hleft, hfirst⟩ := h limit rounds (b' ++ rest) (by omega) (by omega)
  obtain ⟨rounds'', hleft', hsecond⟩ := h' limit rounds' rest hlimit (by omega)
  refine ⟨rounds'', hleft', ?_⟩
  rw [List.append_assoc, hfirst]
  exact hsecond

theorem field {tag : Nat} {w : WireType} (htag : tag ≠ 0) (hsmall : tag < 2 ^ 28)
    (hstep : ∀ rest, step ⟨tag, w⟩ a (b ++ rest) = out.map (·, rest)) : MergesTo step (putKey tag w ++ b) a out := by
  intro limit rounds rest hlimit hrounds
  have hkey : 0 < (putKey tag w).length := List.length_pos_iff.mpr (putKey_ne_nil tag w)
  have hsize : (putKey tag w ++ b).length = (putKey tag w).length + b.length := List.length_append
  have hmore : (b ++ rest).length = b.length + rest.length := List.length_append
  obtain ⟨rounds, rfl⟩ : ∃ r, rounds = r + 1 := ⟨rounds - 1, by omega⟩
  refine ⟨rounds, by omega, ?_⟩
  rw [List.append_assoc, fieldsFor_putKey htag hsmall (by omega), hstep]
  cases out <;> rfl

theorem fields (h : MergesTo step b a out) (rest : Bytes) :
    fields step rest.length a (b ++ rest) = out.map (·, rest) := by
  have hsize : (b ++ rest).length = b.length + rest.length := List.length_append
  obtain ⟨rounds, -, hmerged⟩ := h rest.length (b ++ rest).length rest (Nat.le_refl _) (by omega)
  rw [Wire.fields, hmerged]
  cases out with
  | error e => rfl
  | ok a' =>
    show fieldsFor step rest.length rounds a' rest = .ok (a', rest)
    cases rounds with
    | zero => rfl
    | succ rounds => rw [fieldsFor, if_pos (Nat.le_refl _)]

theorem record (h : MergesTo step b a out) : record step a b = out := by
  have hfields := h.fields []
  rw [List.append_nil] at hfields
  rw [Wire.record]
  show (Wire.fields step ([] : Bytes).length a b >>= _) = _
  rw [hfields]
  cases out <;> rfl

theorem embedded (h : MergesTo step b a out) (hb : b.length < 2 ^ 64) (rest : Bytes) :
    embedded step a (putVarint b.length ++ b ++ rest) = out.map (·, rest) := by
  have hlength : length (putVarint b.length ++ (b ++ rest)) = .ok (b.length, b ++ rest) :=
    length_putVarint hb (by simp)
  have hlimit : (b ++ rest).length - b.length = rest.length := by simp
  rw [List.append_assoc, Wire.embedded, hlength]
  show (Wire.fields step ((b ++ rest).length - b.length) a (b ++ rest) >>= _) = _
  rw [hlimit, h.fields]
  cases out with
  | error e => rfl
  | ok a' =>
    show (if rest.length = rest.length then _ else _) = _
    rw [if_pos rfl]
    rfl

end MergesTo

theorem length_le_putDelimited (tag : Nat) (b : Bytes) : b.length ≤ (putDelimited tag b).length := by
  rw [putDelimited, List.length_append]
  exact Nat.le_add_left _ _

theorem length_le_putBytes (tag : Nat) (b : Bytes) : b.length ≤ (putBytes tag b).length := by
  by_cases hb : b = []
  · rw [hb]
    exact Nat.zero_le _
  · rw [putBytes, if_neg hb]
    exact length_le_putDelimited tag b

theorem ofText_eq_nil {s : String} (h : Bytes.ofText s = []) : s = "" := by
  have hread := Bytes.text?_ofText s
  have hempty : Bytes.text? [] = some "" := Bytes.text?_ofText ""
  rw [h, hempty] at hread
  exact (Option.some.inj hread).symm

/-! ## Fields of known steps

What the step does with a field is to read its value and to put it in; a field that was left out has the value that is
there already.
-/

variable {record field : String} {tag : Nat}

theorem merges_putNumber (put : Nat → α) (htag : tag ≠ 0) (hsmall : tag < 2 ^ 28)
    (hstep : ∀ input, step ⟨tag, .varint⟩ a input =
      named record field (do let (n, rest) ← varint input; return (put n, rest)))
    (hzero : put 0 = a) {n : Nat} (hn : n < 2 ^ 64) : Merges step (putNumber tag n) a (put n) := by
  by_cases h0 : n = 0
  · rw [putNumber, if_pos h0, h0, hzero]
    exact .nil step a
  · rw [putNumber, if_neg h0]
    apply MergesTo.field htag hsmall
    intro rest
    rw [hstep, varint_putVarint hn]
    rfl

theorem merges_putDelimited (put : Bytes → α) (htag : tag ≠ 0) (hsmall : tag < 2 ^ 28)
    (hstep : ∀ input, step ⟨tag, .delimited⟩ a input =
      named record field (do let (b, rest) ← byteString input; return (put b, rest)))
    (hb : b.length < 2 ^ 64) : Merges step (putDelimited tag b) a (put b) := by
  rw [putDelimited, List.append_assoc]
  apply MergesTo.field htag hsmall
  intro rest
  rw [hstep, byteString_put hb]
  rfl

theorem merges_putBytes (put : Bytes → α) (htag : tag ≠ 0) (hsmall : tag < 2 ^ 28)
    (hstep : ∀ input, step ⟨tag, .delimited⟩ a input =
      named record field (do let (b, rest) ← byteString input; return (put b, rest)))
    (hempty : put [] = a) (hb : b.length < 2 ^ 64) : Merges step (putBytes tag b) a (put b) := by
  by_cases h0 : b = []
  · rw [putBytes, if_pos h0, h0, hempty]
    exact .nil step a
  · rw [putBytes, if_neg h0]
    exact merges_putDelimited put htag hsmall hstep hb

theorem merges_putText (put : String → α) (htag : tag ≠ 0) (hsmall : tag < 2 ^ 28)
    (hstep : ∀ input, step ⟨tag, .delimited⟩ a input =
      named record field (do let (s, rest) ← text input; return (put s, rest)))
    (hempty : put "" = a) {s : String} (hs : (Bytes.ofText s).length < 2 ^ 64) :
    Merges step (putText tag s) a (put s) := by
  by_cases h0 : Bytes.ofText s = []
  · rw [putText, putBytes, if_pos h0, ofText_eq_nil h0, hempty]
    exact .nil step a
  · rw [putText, putBytes, if_neg h0, putDelimited, List.append_assoc]
    apply MergesTo.field htag hsmall
    intro rest
    rw [hstep, text_put hs]
    rfl

theorem mergesTo_putRecord {β : Type} {inner : Step β} {c : β} {out : Except Error β} (put : β → α) (htag : tag ≠ 0)
    (hsmall : tag < 2 ^ 28)
    (hstep : ∀ input, step ⟨tag, .delimited⟩ a input =
      named record field (do let (c', rest) ← embedded inner c input; return (put c', rest)))
    (h : MergesTo inner b c out) (hb : b.length < 2 ^ 64) :
    MergesTo step (putDelimited tag b) a (named record field (out.map put)) := by
  rw [putDelimited, List.append_assoc]
  apply MergesTo.field htag hsmall
  intro rest
  rw [hstep, h.embedded hb]
  cases out <;> rfl

end ContractHost.Wire
