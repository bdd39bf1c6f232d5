import ContractHost.Proofs.DeploymentAddresses
import ContractHost.Proofs.WireFields
/-!
# Packed arguments

A packed list is unpacked to its arguments, and a cut one to the arguments that are there in whole, if the cut lies
between two of them. A cut inside an argument, in its key, in its length or in its bytes, cannot be decoded, and nothing
is unpacked from it. So what is left of a packed list never gives an argument that was not packed.
-/
namespace ContractHost

namespace Wire

/-! ## Values that break off -/

/-- A written number that breaks off is not read: every byte before the last one announces another. -/
theorem varintFrom_take {n place j : Nat} (hj : j < (putVarint n).length) :
    varintFrom place ((putVarint n).take j) = fail .varint := by
  induction n using putVarint.induct generalizing place j with
  | case1 n hlow =>
    rw [putVarint_of_lt hlow, List.length_singleton] at hj
    obtain rfl : j = 0 := by omega
    rfl
  | case2 n hhigh ih =>
    rw [putVarint_of_not_lt hhigh] at hj ⊢
    cases j with
    | zero => rfl
    | succ j =>
      rw [List.length_cons, Nat.add_lt_add_iff_right] at hj
      rw [List.take_succ_cons, varintFrom, if_neg (not_group_lt n), ih hj]
      split <;> rfl

theorem key_take {tag j : Nat} {w : WireType} (hj : j < (putKey tag w).length) :
    key ((putKey tag w).take j) = fail .varint := by
  have hvarint : varint ((putKey tag w).take j) = fail .varint := varintFrom_take hj
  rw [key, hvarint]
  rfl

theorem byteString_take {b : Bytes} {j : Nat} (hb : b.length < 2 ^ 64) (hj : j < (putVarint b.length ++ b).length) :
    ∃ e, byteString ((putVarint b.length ++ b).take j) = .error e := by
  rw [List.length_append] at hj
  by_cases hlength : j < (putVarint b.length).length
  · have hvarint : varint ((putVarint b.length).take j) = fail .varint := varintFrom_take hlength
    refine ⟨{ fault := .varint }, ?_⟩
    rw [List.take_append_of_le_length (Nat.le_of_lt hlength), byteString, length, hvarint]
    rfl
  · obtain ⟨i, rfl⟩ : ∃ i, j = (putVarint b.length).length + i := ⟨_, (Nat.add_sub_cancel' (Nat.le_of_not_lt hlength)).symm⟩
    have hshort : (b.take i).length < b.length := by
      rw [List.length_take]
      omega
    refine ⟨{ fault := .underflow }, ?_⟩
    rw [List.take_length_add_append, byteString, length, varint_putVarint hb]
    show (if (b.take i).length < b.length then _ else _) >>= _ = _
    rw [if_pos hshort]
    rfl

/-! ## Records that break off -/

variable {α : Type} {step : Step α} {a a' : α} {b c : Bytes}

theorem MergesTo.record_error (h : Merges step b a a') (hc : c ≠ [])
    (hfail : ∀ rounds, ∃ e, fieldsFor step 0 (rounds + 1) a' c = .error e) : ∃ e, Wire.record step a (b ++ c) = .error e := by
  have hpos : 0 < c.length := List.length_pos_iff.mpr hc
  obtain ⟨rounds, hleft, hmerged⟩ := h 0 (b ++ c).length c (Nat.zero_le _) (by simp)
  obtain ⟨rounds, rfl⟩ : ∃ r, rounds = r + 1 := ⟨rounds - 1, by omega⟩
  obtain ⟨e, he⟩ := hfail rounds
  refine ⟨e, ?_⟩
  rw [Wire.record, Wire.fields, hmerged]
  show (fieldsFor step 0 (rounds + 1) a' c >>= _) = _
  rw [he]
  rfl

theorem fieldsFor_of_key_error {rounds : Nat} {e : Error} (hc : c ≠ []) (hkey : key c = .error e) :
    fieldsFor step 0 (rounds + 1) a c = .error e := by
  have hpos : ¬ c.length ≤ 0 := Nat.not_le_of_lt (List.length_pos_iff.mpr hc)
  rw [fieldsFor, if_neg hpos, hkey]
  rfl

theorem fieldsFor_take_putDelimited {record field : String} {tag j rounds : Nat} (put : Bytes → α) (htag : tag ≠ 0)
    (hsmall : tag < 2 ^ 28)
    (hstep : ∀ input, step ⟨tag, .delimited⟩ a input =
      named record field (do let (b, rest) ← byteString input; return (put b, rest)))
    (hb : b.length < 2 ^ 64) (hpos : 0 < j) (hj : j < (putDelimited tag b).length) :
    ∃ e, fieldsFor step 0 (rounds + 1) a ((putDelimited tag b).take j) = .error e := by
  rw [putDelimited, List.append_assoc, List.length_append] at hj
  rw [putDelimited, List.append_assoc]
  by_cases hkey : j < (putKey tag .delimited).length
  · have htake : (putKey tag .delimited).take j ≠ [] := by
      rw [ne_eq, List.take_eq_nil_iff]
      exact not_or.mpr ⟨Nat.ne_of_gt hpos, putKey_ne_nil tag .delimited⟩
    rw [List.take_append_of_le_length (Nat.le_of_lt hkey)]
    exact ⟨_, fieldsFor_of_key_error htake (key_take hkey)⟩
  · obtain ⟨i, rfl⟩ : ∃ i, j = (putKey tag .delimited).length + i :=
      ⟨_, (Nat.add_sub_cancel' (Nat.le_of_not_lt hkey)).symm⟩
    obtain ⟨e, he⟩ := byteString_take (j := i) hb (by omega)
    refine ⟨e.inside record field, ?_⟩
    rw [List.take_length_add_append, fieldsFor_putKey htag hsmall (Nat.zero_le _), hstep, he]
    rfl

/-! ## Argument lists -/

theorem merges_putArguments (depth : Nat) {args : List Bytes} (hargs : ∀ arg ∈ args, arg.length < 2 ^ 64)
    (earlier : List Bytes) : Merges (argumentStep depth) (putArguments args) earlier (earlier ++ args) := by
  induction args generalizing earlier with
  | nil =>
    rw [List.append_nil]
    exact .nil _ _
  | cons arg args ih =>
    obtain ⟨harg, hargs⟩ := List.forall_mem_cons.mp hargs
    have hfirst : Merges (argumentStep depth) (putDelimited 1 arg) earlier (earlier ++ [arg]) :=
      merges_putDelimited (fun b => earlier ++ [b]) (by decide) (by decide) (fun _ => rfl) harg
    have hrest := ih hargs (earlier ++ [arg])
    rw [List.append_assoc] at hrest
    rw [putArguments_cons]
    exact hfirst.append hrest

theorem readArguments_putArguments {args : List Bytes} (hargs : ∀ arg ∈ args, arg.length < 2 ^ 64) :
    readArguments (putArguments args) = .ok args :=
  (merges_putArguments maxDepth hargs []).record

theorem readArguments_broken {args : List Bytes} {arg : Bytes} {j : Nat} (hargs : ∀ x ∈ args, x.length < 2 ^ 64)
    (harg : arg.length < 2 ^ 64) (hpos : 0 < j) (hj : j < (putDelimited 1 arg).length) :
    ∃ e, readArguments (putArguments args ++ (putDelimited 1 arg).take j) = .error e := by
  have hnonempty : (putDelimited 1 arg).take j ≠ [] := by
    rw [← List.length_pos_iff, List.length_take]
    omega
  apply (merges_putArguments maxDepth hargs []).record_error hnonempty
  intro rounds
  exact fieldsFor_take_putDelimited (fun b => [] ++ args ++ [b]) (by decide) (by decide) (fun _ => rfl) harg hpos hj

theorem take_putArguments (args : List Bytes) (k : Nat) :
    (putArguments args).take (putArguments (args.take k)).length = putArguments (args.take k) := by
  have hsplit : putArguments args = putArguments (args.take k) ++ putArguments (args.drop k) := by
    rw [← putArguments_append, List.take_append_drop]
  rw [hsplit, List.take_left]

/-- Where written arguments may be cut: behind some of them, or inside the next one. -/
theorem cut_putArguments (args : List Bytes) {n : Nat} (hn : n ≤ (putArguments args).length) :
    (∃ k ≤ args.length, n = (putArguments (args.take k)).length) ∨
      ∃ before arg after j, args = before ++ arg :: after ∧ 0 < j ∧ j < (putDelimited 1 arg).length ∧
        (putArguments args).take n = putArguments before ++ (putDelimited 1 arg).take j := by
  induction args generalizing n with
  | nil => exact .inl ⟨0, Nat.le_refl 0, Nat.le_zero.mp hn⟩
  | cons arg args ih =>
    rw [putArguments_cons, List.length_append] at hn
    by_cases hinside : n < (putDelimited 1 arg).length
    · rcases Nat.eq_zero_or_pos n with rfl | hpos
      · exact .inl ⟨0, Nat.zero_le _, rfl⟩
      · refine .inr ⟨[], arg, args, n, rfl, hpos, hinside, ?_⟩
        rw [putArguments_cons, List.take_append_of_le_length (Nat.le_of_lt hinside)]
        rfl
    · obtain ⟨m, rfl⟩ : ∃ m, n = (putDelimited 1 arg).length + m := ⟨_, (Nat.add_sub_cancel' (Nat.le_of_not_lt hinside)).symm⟩
      rcases ih (n := m) (by omega) with ⟨k, hk, rfl⟩ | ⟨before, x, after, j, rfl, hpos, hj, htake⟩
      · refine .inl ⟨k + 1, Nat.succ_le_succ hk, ?_⟩
        rw [List.take_succ_cons, putArguments_cons, List.length_append]
      · refine .inr ⟨arg :: before, x, after, j, rfl, hpos, hj, ?_⟩
        rw [putArguments_cons, List.take_length_add_append, htake, putArguments_cons, List.append_assoc]

end Wire

namespace Arguments

theorem decode_pack {args : List Bytes} (hargs : ∀ arg ∈ args, arg.length < 2 ^ 64) : decode (pack args) = .ok args := by
  show (Wire.readArguments (Wire.putArguments args)).mapError FormatError.arguments = _
  rw [Wire.readArguments_putArguments hargs]
  rfl

theorem unpack_of_decode {b : Bytes} {args : List Bytes} (h : decode b = .ok args) : unpack b = args := by
  rw [unpack, h]

theorem unpack_of_error {b : Bytes} {e : FormatError} (h : decode b = .error e) : unpack b = [] := by
  rw [unpack, h]

/-- Every list of arguments is unpacked as it was packed, and so is every single argument. The lengths that can be written
are numbers of 64 bits. -/
theorem unpack_pack :
    (∀ args : List Bytes, (∀ arg ∈ args, arg.length < 2 ^ 64) →
      unpack (pack args) = args ∧ decode (pack args) = .ok args) ∧
    ∀ arg : Bytes, unpack (packPlain arg) = [arg] := by
  refine ⟨?_, fun arg => rfl⟩
  intro args hargs
  exact ⟨unpack_of_decode (decode_pack hargs), decode_pack hargs⟩

/-- Empty arguments and one whose length takes two bytes. -/
def assorted : List Bytes :=
  [[], List.replicate 300 7, []]

theorem assorted_short : ∀ arg ∈ assorted, arg.length < 2 ^ 64 := by
  rw [assorted]
  decide +kernel

theorem assorted_unpacked :
    (∀ arg ∈ assorted, arg.length < 2 ^ 64) ∧ unpack (pack assorted) = assorted ∧ unpack (packPlain []) = [[]] :=
  ⟨assorted_short, (unpack_pack.1 assorted assorted_short).1, unpack_pack.2 []⟩

/-! ## Cut lists -/

/-- Where a packed list can be cut behind its first `k` arguments: behind the tag and what these arguments take. -/
def boundary (args : List Bytes) (k : Nat) : Nat :=
  1 + (Wire.putArguments (args.take k)).length

/-- A packed list that is cut may be a list of the first arguments; else it cannot be decoded, or nothing is left. -/
theorem decode_take {args : List Bytes} (hargs : ∀ arg ∈ args, arg.length < 2 ^ 64) {n : Nat}
    (hn : n ≤ (pack args).length) :
    n = 0 ∨ (∃ k ≤ args.length, n = boundary args k) ∨ ∃ e, decode ((pack args).take n) = .error e := by
  cases n with
  | zero => exact .inl rfl
  | succ n =>
    rw [pack, List.length_cons, Nat.add_le_add_iff_right] at hn
    refine .inr ?_
    rcases Wire.cut_putArguments args hn with ⟨k, hk, rfl⟩ | ⟨before, arg, after, j, rfl, hpos, hj, htake⟩
    · exact .inl ⟨k, hk, Nat.add_comm _ _⟩
    · obtain ⟨hbefore, harg, -⟩ := List.forall_mem_append.mp hargs |>.imp id List.forall_mem_cons.mp
      obtain ⟨e, he⟩ := Wire.readArguments_broken hbefore harg hpos hj
      refine .inr ⟨.arguments e, ?_⟩
      rw [pack, List.take_succ_cons, htake]
      show (Wire.readArguments _).mapError FormatError.arguments = _
      rw [he]
      rfl

theorem decode_take_boundary {args : List Bytes} (hargs : ∀ arg ∈ args, arg.length < 2 ^ 64) (k : Nat) :
    decode ((pack args).take (boundary args k)) = .ok (args.take k) := by
  have htake : (pack args).take (boundary args k) = pack (args.take k) := by
    rw [boundary, Nat.add_comm, pack, List.take_succ_cons, Wire.take_putArguments, pack]
  rw [htake]
  exact decode_pack fun arg harg => hargs arg (List.mem_of_mem_take harg)

/-- A cut list never gives an argument that was not packed, or one in another place. -/
theorem unpack_take_begins {args : List Bytes} (hargs : ∀ arg ∈ args, arg.length < 2 ^ 64) {n : Nat}
    (hn : n ≤ (pack args).length) : unpack ((pack args).take n) <+: args := by
  rcases decode_take hargs hn with rfl | ⟨k, -, rfl⟩ | ⟨e, he⟩
  · exact List.nil_prefix
  · rw [unpack_of_decode (decode_take_boundary hargs k)]
    exact List.take_prefix k args
  · rw [unpack_of_error he]
    exact List.nil_prefix

/-- What is left of a packed list is unpacked to its first arguments if it ends behind them, and else to nothing. It is
decoded if it ends behind an argument or behind the tag, or if nothing is left. -/
theorem unpack_take (args : List Bytes) (hargs : ∀ arg ∈ args, arg.length < 2 ^ 64) (n : Nat)
    (hn : n ≤ (pack args).length) :
    let left := (pack args).take n
    let whole := ∃ k ≤ args.length, n = boundary args k
    unpack left <+: args ∧
    (∀ k ≤ args.length, n = boundary args k → unpack left = args.take k) ∧
    (¬ whole → unpack left = []) ∧
    ((∃ e, decode left = .error e) ↔ 0 < n ∧ ¬ whole) := by
  intro left whole
  have hdecoded : ∀ k, n = boundary args k → decode left = .ok (args.take k) := by
    rintro k rfl
    exact decode_take_boundary hargs k
  refine ⟨unpack_take_begins hargs hn, fun k _ hk => unpack_of_decode (hdecoded k hk), ?_, ?_, ?_⟩
  · intro hbroken
    rcases decode_take hargs hn with rfl | hwhole | ⟨e, he⟩
    · rfl
    · exact absurd hwhole hbroken
    · exact unpack_of_error he
  · rintro ⟨e, he⟩
    refine ⟨Nat.pos_of_ne_zero ?_, ?_⟩
    · rintro rfl
      cases he
    · rintro ⟨k, -, hk⟩
      rw [hdecoded k hk] at he
      cases he
  · rintro ⟨hpos, hbroken⟩
    rcases decode_take hargs hn with rfl | hwhole | herror
    · exact absurd hpos (Nat.lt_irrefl 0)
    · exact absurd hwhole hbroken
    · exact herror

/-- The list is cut behind its long argument, and inside the length of that argument. -/
theorem assorted_cut :
    (∀ arg ∈ assorted, arg.length < 2 ^ 64) ∧ 306 ≤ (pack assorted).length ∧ 306 = boundary assorted 2 ∧
      unpack ((pack assorted).take 306) = [[], List.replicate 300 7] ∧
      unpack ((pack assorted).take 5) = [] ∧ ∃ e, decode ((pack assorted).take 5) = .error e := by
  have hsize : 306 ≤ (pack assorted).length := by decide +kernel
  have hbehind : 306 = boundary assorted 2 := by decide +kernel
  have hinside : ¬ ∃ k ≤ assorted.length, 5 = boundary assorted k := by decide +kernel
  obtain ⟨-, hwhole, -, -⟩ := unpack_take assorted assorted_short 306 hsize
  obtain ⟨-, -, hnothing, herror⟩ := unpack_take assorted assorted_short 5 (Nat.le_trans (by decide) hsize)
  exact ⟨assorted_short, hsize, hbehind, hwhole 2 (by decide) hbehind, hnothing hinside,
    herror.mpr ⟨by decide, hinside⟩⟩

end Arguments

end ContractHost
