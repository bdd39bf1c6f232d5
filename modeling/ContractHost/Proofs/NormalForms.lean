import ContractHost.Proofs.LegibleResults
/-!
# Normal forms of results

Bytes may say the same in many ways: fields in any order, a field or an action more than once, numbers with idle groups,
amounts with leading zeros, fields that nobody knows. The bytes that a result is written to are one of these ways, and
whatever was read is read again from them.

That what was read keeps to the bounds of the reader is known from the reading. The bytes could still grow too long for
their own lengths. They do not: a value never takes more bytes than it was read from, which the reader of a record keeps
field by field.
-/
namespace ContractHost

theorem UInt32.toNat_ofNat_le (n : Nat) : (UInt32.ofNat n).toNat ≤ n := by
  rw [UInt32.toNat_ofNat']
  exact Nat.mod_le _ _

theorem UInt64.toNat_ofNat_le (n : Nat) : (UInt64.ofNat n).toNat ≤ n := by
  rw [UInt64.toNat_ofNat']
  exact Nat.mod_le _ _

theorem Bool.toNat_ne_zero_le (n : Nat) : (decide (n ≠ 0)).toNat ≤ n := by
  by_cases hn : n = 0
  · rw [hn]
    decide
  · exact Nat.le_trans (Bool.toNat_le _) (Nat.one_le_iff_ne_zero.mpr hn)

theorem Amount.length_toBytes_of_ofBytes {b : Bytes} {a : Amount} (h : ofBytes b = .ok a) :
    (toBytes a).length ≤ b.length := by
  rw [← toNat_of_ofBytes h]
  exact Bytes.length_ofNat_le_iff.mpr (Bytes.toNat_lt b)

theorem ActionKind.number_of_ofNumber {n : UInt32} {kind : ActionKind} (h : ofNumber n = .ok kind) :
    kind.number = n := by
  rw [ofNumber] at h
  split at h
  next hn =>
    cases h
    exact hn.symm
  split at h
  next hn =>
    cases h
    exact hn.symm
  split at h
  next hn =>
    cases h
    exact hn.symm
  next => cases h

namespace Wire

/-! ## Sizes of fields -/

theorem length_putVarint_pos (n : Nat) : 0 < (putVarint n).length :=
  List.length_pos_iff.mpr (putVarint_ne_nil n)

theorem length_putVarint_group_le {low : Nat} (hlow : low < 128) (high : Nat) :
    (putVarint (low + 128 * high)).length ≤ 1 + (putVarint high).length := by
  have hhigh : high < 128 ^ (putVarint high).length :=
    (length_putVarint_le_iff (length_putVarint_pos high)).mp (Nat.le_refl _)
  rw [Nat.add_comm 1, length_putVarint_le_iff (Nat.succ_pos _), Nat.pow_succ]
  omega

theorem length_putVarint_add_le (m n : Nat) :
    (putVarint (m + n)).length ≤ (putVarint m).length + (putVarint n).length := by
  have hm := length_putVarint_pos m
  have hn := length_putVarint_pos n
  have hm' : m < 128 ^ (putVarint m).length := (length_putVarint_le_iff hm).mp (Nat.le_refl _)
  have hn' : n < 128 ^ (putVarint n).length := (length_putVarint_le_iff hn).mp (Nat.le_refl _)
  rw [length_putVarint_le_iff (Nat.add_pos_left hm _), Nat.pow_add]
  calc m + n
      < 128 ^ (putVarint m).length + 128 ^ (putVarint n).length := Nat.add_lt_add hm' hn'
    _ ≤ 128 ^ (putVarint m).length * 128 ^ (putVarint n).length := by
        have hm2 : 128 ^ 1 ≤ 128 ^ (putVarint m).length := Nat.pow_le_pow_right (by decide) hm
        have hn2 : 128 ^ 1 ≤ 128 ^ (putVarint n).length := Nat.pow_le_pow_right (by decide) hn
        have hproduct := Nat.add_le_mul (Nat.le_trans (by decide) hm2) (Nat.le_trans (by decide) hn2)
        exact hproduct

theorem length_putKey_of_lt {tag : Nat} (h : tag < 16) (w : WireType) : (putKey tag w).length = 1 := by
  have hcode : w.code < 8 := by cases w <;> decide
  rw [putKey, putVarint, if_pos (by omega), List.length_singleton]

theorem length_putNumber_le {tag : Nat} (h : tag < 16) (n : Nat) :
    (putNumber tag n).length ≤ 1 + (putVarint n).length := by
  rw [putNumber]
  split
  · exact Nat.zero_le _
  · exact Nat.le_of_eq (by rw [List.length_append, length_putKey_of_lt h])

theorem length_putDelimited {tag : Nat} (h : tag < 16) (b : Bytes) :
    (putDelimited tag b).length = 1 + (putVarint b.length).length + b.length := by
  rw [putDelimited, List.length_append, List.length_append, length_putKey_of_lt h]

theorem length_putDelimited_mono {tag : Nat} (h : tag < 16) {b b' : Bytes} (hle : b.length ≤ b'.length) :
    (putDelimited tag b).length ≤ (putDelimited tag b').length := by
  have hlength := length_putVarint_le hle
  rw [length_putDelimited h, length_putDelimited h]
  omega

theorem length_putBytes_le {tag : Nat} (h : tag < 16) (b : Bytes) :
    (putBytes tag b).length ≤ 1 + (putVarint b.length).length + b.length := by
  rw [putBytes]
  split
  · exact Nat.zero_le _
  · exact Nat.le_of_eq (length_putDelimited h b)

theorem length_putBytes_mono {tag : Nat} (h : tag < 16) {b b' : Bytes} (hle : b.length ≤ b'.length) :
    (putBytes tag b).length ≤ (putBytes tag b').length := by
  by_cases hb : b = []
  · rw [putBytes, if_pos hb]
    exact Nat.zero_le _
  · have hpos : 0 < b.length := List.length_pos_iff.mpr hb
    have hb' : b' ≠ [] := List.length_pos_iff.mp (Nat.lt_of_lt_of_le hpos hle)
    rw [putBytes, if_neg hb, putBytes, if_neg hb']
    exact length_putDelimited_mono h hle

/-! ## Sizes of what was read -/

theorem varintFrom_size {place : Nat} {input rest : Bytes} {n : Nat} (h : varintFrom place input = .ok (n, rest)) :
    (putVarint n).length + rest.length ≤ input.length := by
  induction input generalizing place n rest with
  | nil => cases h
  | cons b input ih =>
    rw [varintFrom] at h
    split at h
    next hlast =>
      split at h
      · cases h
      · cases h
        have hlow : b.toNat < 128 := UInt8.lt_iff_toNat_lt.mp hlast
        rw [putVarint, if_pos hlow, List.length_singleton, List.length_cons]
        omega
    next hmore =>
      split at h
      · cases h
      · obtain ⟨⟨high, rest'⟩, hhigh, h⟩ := bind_ok h
        cases h
        have hrest := ih hhigh
        have hlow : b.toNat - 128 < 128 := by
          have hbyte := b.toNat_lt
          omega
        have hgroup := length_putVarint_group_le hlow high
        rw [List.length_cons]
        omega

theorem varint_size {input rest : Bytes} {n : Nat} (h : varint input = .ok (n, rest)) :
    (putVarint n).length + rest.length ≤ input.length :=
  varintFrom_size h

theorem key_size {input rest : Bytes} {k : Key} (h : key input = .ok (k, rest)) : rest.length < input.length := by
  obtain ⟨⟨n, rest'⟩, hn, h⟩ := bind_ok h
  have hsize := varint_size hn
  have hpos := length_putVarint_pos n
  have hrest : rest = rest' := by
    simp only at h
    split at h
    · cases h
    · split at h
      · cases h
      · split at h
        · cases h
        · cases h
          rfl
  rw [hrest]
  omega

theorem length_ok {input rest : Bytes} {n : Nat} (h : length input = .ok (n, rest)) :
    varint input = .ok (n, rest) ∧ n ≤ rest.length := by
  obtain ⟨⟨n', rest'⟩, hn, h⟩ := bind_ok h
  simp only at h
  split at h
  · cases h
  next hroom =>
    cases h
    exact ⟨hn, Nat.le_of_not_lt hroom⟩

theorem byteString_size {input rest b : Bytes} (h : byteString input = .ok (b, rest)) :
    (putVarint b.length).length + b.length + rest.length ≤ input.length := by
  obtain ⟨⟨n, rest'⟩, hn, h⟩ := bind_ok h
  obtain ⟨hvarint, hroom⟩ := length_ok hn
  cases h
  have hsize := varint_size hvarint
  rw [List.length_take, List.length_drop, Nat.min_eq_left hroom]
  omega

theorem text_size {input rest : Bytes} {s : String} (h : text input = .ok (s, rest)) :
    (putVarint (Bytes.ofText s).length).length + (Bytes.ofText s).length + rest.length ≤ input.length := by
  obtain ⟨⟨b, rest'⟩, hb, h⟩ := bind_ok h
  simp only at h
  split at h
  next s' hs =>
    cases h
    rw [Bytes.ofText_of_text? hs]
    exact byteString_size hb
  next => cases h

/-! ## Skipped fields -/

theorem dropBytes_size {n : Nat} {input rest : Bytes} (h : dropBytes n input = .ok rest) :
    rest.length ≤ input.length := by
  rw [dropBytes] at h
  split at h
  · cases h
  · cases h
    rw [List.length_drop]
    exact Nat.sub_le _ _

theorem skipGroup_size {skip : Key → List UInt8 → Except Error (List UInt8)}
    (hskip : ∀ {k input rest}, skip k input = .ok rest → rest.length ≤ input.length) {tag rounds : Nat}
    {input rest : Bytes} (h : skipGroup skip tag rounds input = .ok rest) : rest.length ≤ input.length := by
  induction rounds generalizing input with
  | zero => cases h
  | succ rounds ih =>
    obtain ⟨⟨k, after⟩, hkey, h⟩ := bind_ok h
    have hsize := key_size hkey
    simp only at h
    split at h
    · split at h
      · cases h
        omega
      · cases h
    · obtain ⟨after', hone, h⟩ := bind_ok h
      have hskipped := hskip hone
      have hmore := ih h
      omega

theorem skip_size {depth : Nat} {k : Key} {input rest : Bytes} (h : skip depth k input = .ok rest) :
    rest.length ≤ input.length := by
  induction depth generalizing k input rest with
  | zero => cases h
  | succ depth ih =>
    rw [skip] at h
    split at h
    · obtain ⟨⟨n, after⟩, hn, h⟩ := bind_ok h
      cases h
      have hsize := varint_size hn
      omega
    · exact dropBytes_size h
    · exact dropBytes_size h
    · obtain ⟨⟨n, after⟩, hn, h⟩ := bind_ok h
      have hsize := varint_size hn
      have hdropped := dropBytes_size h
      omega
    · exact skipGroup_size ih h
    · cases h

theorem ignore_ok {α : Type} {depth : Nat} {k : Key} {a a' : α} {input rest : Bytes}
    (h : ignore depth k a input = .ok (a', rest)) : a' = a ∧ rest.length ≤ input.length := by
  obtain ⟨after, hskip, h⟩ := bind_ok h
  cases h
  exact ⟨rfl, skip_size hskip⟩

/-! ## Records that keep to their bytes -/

variable {α : Type} {size : α → Nat} {P : α → Prop} {step : Step α} {a a' : α} {input rest : Bytes}

/-- Merging a field keeps `P`, and the record grows by no more than the field's bytes. The key has been read, which took
a byte at least. -/
def Keeps (size : α → Nat) (P : α → Prop) (step : Step α) : Prop :=
  ∀ k a a' input rest, step k a input = .ok (a', rest) → P a →
    P a' ∧ size a' + rest.length ≤ size a + input.length + 1

theorem Keeps.fieldsFor (hstep : Keeps size P step) {limit rounds : Nat}
    (h : fieldsFor step limit rounds a input = .ok (a', rest)) (ha : P a) :
    P a' ∧ size a' + rest.length ≤ size a + input.length := by
  induction rounds generalizing a input with
  | zero =>
    cases h
    exact ⟨ha, Nat.le_refl _⟩
  | succ rounds ih =>
    rw [Wire.fieldsFor] at h
    split at h
    · cases h
      exact ⟨ha, Nat.le_refl _⟩
    -- The byte that the step may add is the one that the key took.
    · obtain ⟨⟨k, behind⟩, hkey, h⟩ := bind_ok h
      obtain ⟨⟨b, after⟩, hone, h⟩ := bind_ok h
      obtain ⟨hb, hsize⟩ := hstep _ _ _ _ _ hone ha
      obtain ⟨ha', hrest⟩ := ih h hb
      have hread := key_size hkey
      exact ⟨ha', by omega⟩

theorem Keeps.record (hstep : Keeps size P step) (h : record step a input = .ok a') (ha : P a) :
    P a' ∧ size a' ≤ size a + input.length := by
  obtain ⟨⟨b, rest⟩, hfields, h⟩ := bind_ok h
  cases h
  obtain ⟨ha', hsize⟩ := hstep.fieldsFor hfields ha
  exact ⟨ha', by omega⟩

theorem Keeps.embedded (hstep : Keeps size P step) (h : embedded step a input = .ok (a', rest)) (ha : P a) :
    P a' ∧ ∃ n, size a' ≤ size a + n ∧ (putVarint n).length + n + rest.length ≤ input.length := by
  obtain ⟨⟨n, behind⟩, hlength, h⟩ := bind_ok h
  obtain ⟨hvarint, hroom⟩ := length_ok hlength
  obtain ⟨⟨b, after⟩, hfields, h⟩ := bind_ok h
  obtain ⟨hb, hsize⟩ := hstep.fieldsFor hfields ha
  have hread := varint_size hvarint
  simp only at h
  split at h
  next hend =>
    cases h
    exact ⟨hb, n, by omega, by omega⟩
  next => cases h

theorem field_ok {β : Type} {record field : String} {w w' : WireType} {reader : Reader β} (put : β → α)
    (h : named record field (do expect w w'; let (v, rest) ← reader input; return (put v, rest)) = .ok (a', rest)) :
    ∃ v, reader input = .ok (v, rest) ∧ a' = put v := by
  obtain ⟨-, -, h⟩ := bind_ok (mapError_ok h)
  obtain ⟨⟨v, after⟩, hread, h⟩ := bind_ok h
  cases h
  exact ⟨v, hread, rfl⟩

/-! ## Known fields

A field that was read is written with no more bytes. Its key took one at least and is written with one.
-/

variable {tag : Nat}

theorem number_size {m n : Nat} (htag : tag < 16) (h : varint input = .ok (n, rest)) (hle : m ≤ n) :
    (putNumber tag m).length + rest.length ≤ input.length + 1 := by
  have hread := varint_size h
  have hput := length_putNumber_le htag m
  have hshort := length_putVarint_le hle
  omega

theorem bytes_size {b : Bytes} (htag : tag < 16) (h : byteString input = .ok (b, rest)) :
    (putBytes tag b).length + rest.length ≤ input.length + 1 := by
  have hread := byteString_size h
  have hput := length_putBytes_le htag b
  omega

theorem textField_size {s : String} (htag : tag < 16) (h : text input = .ok (s, rest)) :
    (putText tag s).length + rest.length ≤ input.length + 1 := by
  have hread := text_size h
  have hput := length_putBytes_le htag (Bytes.ofText s)
  rw [putText]
  omega

theorem recordField_size {b : Bytes} {n : Nat} (htag : tag < 16) (hb : b.length ≤ n)
    (hn : (putVarint n).length + n + rest.length ≤ input.length) :
    (putDelimited tag b).length + rest.length ≤ input.length + 1 := by
  have hput := length_putDelimited htag b
  have hshort := length_putVarint_le hb
  omega

/-- An embedded record that was merged into an earlier one: the two lengths together take no less than that of both. -/
theorem mergedField_size {b b' : Bytes} {n : Nat} (htag : tag < 16) (hb : b'.length ≤ b.length + n)
    (hn : (putVarint n).length + n + rest.length ≤ input.length) :
    (putDelimited tag b').length + rest.length ≤ (putDelimited tag b).length + input.length + 1 := by
  have hput := length_putDelimited htag b
  have hput' := length_putDelimited htag b'
  have hshort := length_putVarint_le hb
  have hboth := length_putVarint_add_le b.length n
  omega

/-! ## Actions -/

theorem keeps_actionStep (depth : Nat) :
    Keeps (fun a => (putAction a).length) (fun _ => True) (actionStep depth) := by
  intro k a a' input rest h _
  refine ⟨trivial, ?_⟩
  simp only [putAction, List.length_append]
  rw [actionStep] at h
  split at h
  · obtain ⟨n, hread, rfl⟩ := field_ok (fun n => { a with kind := UInt32.ofNat n }) h
    have hsize := number_size (by decide : 1 < 16) hread (UInt32.toNat_ofNat_le n)
    simp only
    omega
  split at h
  · obtain ⟨b, hread, rfl⟩ := field_ok (fun b => { a with amount := b }) h
    have hsize := bytes_size (by decide : 2 < 16) hread
    simp only
    omega
  split at h
  · obtain ⟨s, hread, rfl⟩ := field_ok (fun s => { a with method := s }) h
    have hsize := textField_size (by decide : 3 < 16) hread
    simp only
    omega
  split at h
  · obtain ⟨b, hread, rfl⟩ := field_ok (fun b => { a with args := b }) h
    have hsize := bytes_size (by decide : 4 < 16) hread
    simp only
    omega
  split at h
  · obtain ⟨n, hread, rfl⟩ := field_ok (fun n => { a with gasLimit := UInt64.ofNat n }) h
    have hsize := number_size (by decide : 5 < 16) hread (UInt64.toNat_ofNat_le n)
    simp only
    omega
  · obtain ⟨rfl, hsize⟩ := ignore_ok h
    omega

/-! ## Results -/

/-- Records for which there were `depth` levels: on the last one nothing is nested, not even the action. -/
def Within : Nat → Tree ResultRecord → Prop
  | 0, .node r nested => r.action = none ∧ nested = []
  | depth + 1, .node _ nested => ∀ t ∈ nested, Within depth t

theorem within_blank (depth : Nat) : Within depth (.node {} []) := by
  cases depth with
  | zero => exact ⟨rfl, rfl⟩
  | succ depth => exact fun t ht => nomatch ht

theorem Within.replace {depth : Nat} {r r' : ResultRecord} {nested : List (Tree ResultRecord)}
    (h : Within depth (.node r nested)) (haction : r'.action = r.action) : Within depth (.node r' nested) := by
  cases depth with
  | zero => exact ⟨haction.trans h.1, h.2⟩
  | succ depth => exact h

theorem putNested_append (ts us : List (Tree ResultRecord)) : putNested (ts ++ us) = putNested ts ++ putNested us := by
  induction ts with
  | nil => rfl
  | cons t ts ih => rw [List.cons_append, putNested, putNested, ih, List.append_assoc]

theorem keeps_resultStep (depth : Nat) :
    Keeps (fun t => (putResult t).length) (Within depth) (resultStep depth) := by
  -- A nested record is read on the next level by the same step.
  induction depth using Nat.strongRecOn with
  | ind depth ih =>
  rintro k ⟨r, nested⟩ t' input rest h hwithin
  simp only [putResult, putResultFields, List.length_append]
  rw [resultStep.eq_def] at h
  simp only at h
  split at h
  · obtain ⟨-, -, h⟩ := bind_ok (mapError_ok h)
    cases depth with
    | zero => cases h
    | succ inner =>
      obtain ⟨⟨a, after⟩, hread, h⟩ := bind_ok h
      cases h
      obtain ⟨-, n, hgrown, hsize⟩ := (keeps_actionStep inner).embedded hread trivial
      refine ⟨hwithin, ?_⟩
      simp only [putResult, putResultFields, List.length_append]
      -- An action that comes again is merged into the one that is there.
      cases haction : r.action with
      | none =>
        rw [haction] at hgrown
        have hblank : (putAction {}).length = 0 := rfl
        have hput := recordField_size (b := putAction a) (by decide : 1 < 16) (by simpa [hblank] using hgrown) hsize
        simp only [List.length_nil]
        omega
      | some a₀ =>
        rw [haction] at hgrown
        have hput := mergedField_size (by decide : 1 < 16) hgrown hsize
        simp only [Option.getD_some] at hput ⊢
        omega
  split at h
  · obtain ⟨n, hread, rfl⟩ := field_ok (fun n => Tree.node { r with success := n ≠ 0 } nested) h
    have hsize := number_size (by decide : 2 < 16) hread (Bool.toNat_ne_zero_le n)
    refine ⟨hwithin.replace rfl, ?_⟩
    simp only [putResult, putResultFields, List.length_append]
    omega
  split at h
  · obtain ⟨s, hread, rfl⟩ := field_ok (fun s => Tree.node { r with error := s } nested) h
    have hsize := textField_size (by decide : 3 < 16) hread
    refine ⟨hwithin.replace rfl, ?_⟩
    simp only [putResult, putResultFields, List.length_append]
    omega
  split at h
  · obtain ⟨n, hread, rfl⟩ := field_ok (fun n => Tree.node { r with gasUsed := UInt64.ofNat n } nested) h
    have hsize := number_size (by decide : 4 < 16) hread (UInt64.toNat_ofNat_le n)
    refine ⟨hwithin.replace rfl, ?_⟩
    simp only [putResult, putResultFields, List.length_append]
    omega
  split at h
  · obtain ⟨b, hread, rfl⟩ := field_ok (fun b => Tree.node { r with output := b } nested) h
    have hsize := bytes_size (by decide : 5 < 16) hread
    refine ⟨hwithin.replace rfl, ?_⟩
    simp only [putResult, putResultFields, List.length_append]
    omega
  split at h
  · obtain ⟨b, hread, rfl⟩ := field_ok (fun b => Tree.node { r with remaining := b } nested) h
    have hsize := bytes_size (by decide : 6 < 16) hread
    refine ⟨hwithin.replace rfl, ?_⟩
    simp only [putResult, putResultFields, List.length_append]
    omega
  split at h
  · obtain ⟨-, -, h⟩ := bind_ok (mapError_ok h)
    cases depth with
    | zero => cases h
    | succ inner =>
      obtain ⟨⟨t, after⟩, hread, h⟩ := bind_ok h
      cases h
      obtain ⟨ht, n, hgrown, hsize⟩ := (ih inner (Nat.lt_succ_self _)).embedded hread (within_blank inner)
      have hblank : (putResult (.node {} [])).length = 0 := rfl
      have hput := recordField_size (b := putResult t) (by decide : 7 < 16) (by simpa [hblank] using hgrown) hsize
      constructor
      · intro u hu
        rcases List.mem_append.mp hu with hearlier | hlast
        · exact hwithin u hearlier
        · rw [List.mem_singleton.mp hlast]
          exact ht
      · simp only [putResult, putResultFields, putNested_append, putNested, List.length_append, List.length_nil]
        omega
  · obtain ⟨rfl, hsize⟩ := ignore_ok h
    refine ⟨hwithin, ?_⟩
    simp only [putResult, putResultFields, List.length_append]
    omega

end Wire

/-! ## What records describe -/

open Wire in
theorem Action.length_putAction_le {r : ActionRecord} {a : Action} (h : ofRecord r = .ok a) :
    (putAction a.toRecord).length ≤ (putAction r).length := by
  obtain ⟨kind, hkind, h⟩ := bind_ok h
  obtain ⟨amount, hamount, h⟩ := bind_ok h
  cases h
  have hnumber : kind.number = r.kind := ActionKind.number_of_ofNumber hkind
  have hput := length_putBytes_mono (by decide : 2 < 16) (Amount.length_toBytes_of_ofBytes hamount)
  simp only [toRecord, putAction, List.length_append, hnumber]
  omega

namespace ResultTree

open Wire

theorem mem_ofRecordList {rs : List (Tree ResultRecord)} {ts : List ResultTree} (h : ofRecordList rs = .ok ts)
    {t : ResultTree} (ht : t ∈ ts) : ∃ r ∈ rs, ofRecords r = .ok t := by
  induction rs generalizing ts with
  | nil =>
    cases h
    cases ht
  | cons r rs ih =>
    obtain ⟨t', ts', hfirst, hrest, rfl⟩ := ofRecordList_cons_ok h
    rcases List.mem_cons.mp ht with rfl | hmem
    · exact ⟨r, List.mem_cons_self, hfirst⟩
    · obtain ⟨r', hr', hread⟩ := ih hrest hmem
      exact ⟨r', List.mem_cons_of_mem _ hr', hread⟩

/-- Only records with an action describe something, so the last level is not used. -/
theorem height_le_of_within {depth : Nat} {r : Tree ResultRecord} {t : ResultTree} (hwithin : Within depth r)
    (h : ofRecords r = .ok t) : t.height ≤ depth := by
  induction depth generalizing r t with
  | zero =>
    obtain ⟨r, nested⟩ := r
    obtain ⟨a, action, children, remaining, ha, -⟩ := ofRecords_ok h
    rw [hwithin.1] at ha
    cases ha
  | succ depth ih =>
    obtain ⟨r, nested⟩ := r
    obtain ⟨a, action, children, remaining, -, hchildren, -, -, rfl⟩ := ofRecords_ok h
    have hbelow : Tree.heightAll children ≤ depth := by
      apply Tree.heightAll_le_iff.mpr
      intro c hc
      obtain ⟨u, hu, hread⟩ := mem_ofRecordList hchildren hc
      exact ih (hwithin u hu) hread
    rw [Tree.height]
    omega

mutual

theorem length_putResult_le (r : Tree ResultRecord) {t : ResultTree} (h : ofRecords r = .ok t) :
    t.toBytes.length ≤ (putResult r).length := by
  match r with
  | .node r nested =>
    obtain ⟨a, action, children, remaining, ha, hchildren, haction, hremaining, rfl⟩ := ofRecords_ok h
    have hnested := length_putNested_le nested hchildren
    have hfirst := length_putDelimited_mono (by decide : 1 < 16) (Action.length_putAction_le haction)
    have hlast := length_putBytes_mono (by decide : 6 < 16) (Amount.length_toBytes_of_ofBytes hremaining)
    simp only [toBytes, toRecords, Tree.map, recordOf, putResult, putResultFields, ha, List.length_append]
    omega

theorem length_putNested_le (rs : List (Tree ResultRecord)) {ts : List ResultTree} (h : ofRecordList rs = .ok ts) :
    (putNested (Tree.mapAll recordOf ts)).length ≤ (putNested rs).length := by
  match rs with
  | [] =>
    cases h
    exact Nat.le_refl _
  | r :: rs =>
    obtain ⟨t, ts, ht, hts, rfl⟩ := ofRecordList_cons_ok h
    have hfirst := length_putDelimited_mono (by decide : 7 < 16) (length_putResult_le r ht)
    have hrest := length_putNested_le rs hts
    rw [toBytes, toRecords] at hfirst
    simp only [Tree.mapAll, putNested, List.length_append]
    omega

end

/-- Whatever bytes a tree was read from: it is read again from its own, which are no more. -/
theorem ofBytes_reencoded {b : Bytes} {t : ResultTree} (hb : b.length < 2 ^ 64) (h : ofBytes b = .ok t) :
    ofBytes t.toBytes = .ok t ∧ t.toBytes.length ≤ b.length := by
  obtain ⟨records, hread, hrecords⟩ := bind_ok h
  have hblank : (putResult (.node {} [])).length = 0 := rfl
  obtain ⟨hwithin, hsize⟩ := (keeps_resultStep maxDepth).record (mapError_ok hread) (within_blank maxDepth)
  have hlength : t.toBytes.length ≤ b.length := by
    calc t.toBytes.length
        ≤ (putResult records).length := length_putResult_le records hrecords
      _ ≤ (putResult (.node {} [])).length + b.length := hsize
      _ = b.length := by rw [hblank, Nat.zero_add]
  have hheight : t.height ≤ maxDepth := height_le_of_within hwithin hrecords
  exact ⟨ofBytes_toBytes hheight (fits_of_ofRecords records hrecords) (by omega), hlength⟩

/-- Bytes that say something in another way than it is written: the remaining amount comes first and begins with zeros,
the action comes in two parts, the second one with an amount that begins with a zero, the gas used ends with an idle
group, the success is corrected, and between them are a number and a group that nobody knows. -/
def loose : Bytes :=
  [0x32, 3, 0, 0, 5] ++ [0x0a, 2, 0x08, 1] ++ [0x48, 7] ++ [0x53, 0x08, 0, 0x54] ++ [0x20, 0x85, 0x80, 0] ++
    [0x10, 0] ++ [0x10, 1] ++ [0x0a, 6, 0x12, 2, 0, 7, 0x28, 9]

def tight : ResultTree :=
  .node { action := .call "" [] 7 9, success := true, error := "", gasUsed := 5, output := [], remaining := 5 } []

theorem loose_reencoded :
    ofBytes loose = .ok tight ∧ ofBytes tight.toBytes = .ok tight ∧ tight.toBytes.length ≤ loose.length := by
  have hread : ofBytes loose = .ok tight := by rfl
  exact ⟨hread, ofBytes_reencoded (by decide) hread⟩

end ResultTree

end ContractHost
