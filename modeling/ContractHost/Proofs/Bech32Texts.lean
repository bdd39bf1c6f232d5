import Mathlib.Algebra.Group.Nat.Defs
import Mathlib.Data.List.Induction
import ContractHost.Address
/-!
# Bech32m texts that were written

The checksum code is linear: what is added to a residue comes out at the end as what six more symbols make of it, so the
six symbols of a checksum bring every residue to the constant of an edition. Regrouping bits loses nothing but the bits
that fill up the last symbol. A text that was written is therefore read back.
-/
namespace ContractHost

namespace Bech32

/-! ## The checksum -/

variable {r d : Residue}

theorem foldl_generators (gs : List (Nat × Residue)) (r d x y : Residue) :
    gs.foldl (fun acc (i, g) => if (r ^^^ d).getLsbD i then acc ^^^ g else acc) (x ^^^ y) =
      gs.foldl (fun acc (i, g) => if r.getLsbD i then acc ^^^ g else acc) x ^^^
        gs.foldl (fun acc (i, g) => if d.getLsbD i then acc ^^^ g else acc) y := by
  induction gs generalizing x y with
  | nil => rfl
  | cons p gs ih =>
    obtain ⟨i, g⟩ := p
    show gs.foldl _ (if (r ^^^ d).getLsbD i then x ^^^ y ^^^ g else x ^^^ y) =
      gs.foldl _ (if r.getLsbD i then x ^^^ g else x) ^^^ gs.foldl _ (if d.getLsbD i then y ^^^ g else y)
    have hstart : (if r.getLsbD i ^^ d.getLsbD i then x ^^^ y ^^^ g else x ^^^ y) =
        (if r.getLsbD i then x ^^^ g else x) ^^^ (if d.getLsbD i then y ^^^ g else y) := by
      cases r.getLsbD i <;> cases d.getLsbD i
      · rfl
      · exact BitVec.xor_assoc x y g
      · show x ^^^ y ^^^ g = x ^^^ g ^^^ y
        ac_rfl
      · show x ^^^ y = x ^^^ g ^^^ (y ^^^ g)
        calc x ^^^ y
            = x ^^^ y ^^^ (g ^^^ g) := by rw [BitVec.xor_self, BitVec.xor_zero]
          _ = x ^^^ g ^^^ (y ^^^ g) := by ac_rfl
    rw [BitVec.getLsbD_xor, hstart, ih]

theorem carry_xor (r d : Residue) : carry (r ^^^ d) = carry r ^^^ carry d := by
  have hfold := foldl_generators
    [(25, 0x3b6a57b2), (26, 0x26508e6d), (27, 0x1ea119fa), (28, 0x3d4233dd), (29, 0x2a1462b3)] r d 0 0
  rw [BitVec.xor_self] at hfold
  exact hfold

theorem carry_eq_zero (h : ∀ i, 25 ≤ i → d.getLsbD i = false) : carry d = 0#30 := by
  simp only [carry, List.foldl_cons, List.foldl_nil, h 25 (by decide), h 26 (by decide), h 27 (by decide),
    h 28 (by decide), h 29 (by decide), Bool.false_eq_true, if_false]
  rfl

/-- Adding to a residue with room for one more symbol moves through a step. -/
theorem feed_xor (h : ∀ i, 25 ≤ i → d.getLsbD i = false) (r : Residue) (s : Symbol) :
    feed (r ^^^ d) s = feed r 0 ^^^ (d <<< 5 ^^^ s.setWidth 30) := by
  have hcarry : carry (r ^^^ d) = carry r := by
    rw [carry_xor, carry_eq_zero h, BitVec.xor_zero]
  have hzero : (0 : Symbol).setWidth 30 = 0#30 := rfl
  rw [feed, feed, hcarry, hzero, BitVec.shiftLeft_xor_distrib, BitVec.xor_zero]
  ac_rfl

theorem shift_symbol (x : Residue) (i : Nat) :
    (x >>> (i + 5)) <<< 5 ^^^ ((x >>> i).setWidth 5).setWidth 30 = x >>> i := by
  apply BitVec.eq_of_getLsbD_eq
  intro j hj
  simp only [BitVec.getLsbD_xor, BitVec.getLsbD_shiftLeft, BitVec.getLsbD_ushiftRight, BitVec.getLsbD_setWidth]
  by_cases hlow : j < 5
  · simp [hlow, hj]
  · have hindex : i + 5 + (j - 5) = i + j := by omega
    simp [hlow, hj, hindex]

theorem feed_symbol (q x : Residue) (i : Nat) :
    feed (q ^^^ x >>> (i + 5)) ((x >>> i).setWidth 5) = feed q 0 ^^^ x >>> i := by
  have hroom : ∀ j, 25 ≤ j → (x >>> (i + 5)).getLsbD j = false := by
    intro j hj
    rw [BitVec.getLsbD_ushiftRight]
    exact BitVec.getLsbD_of_ge x _ (by omega)
  rw [feed_xor hroom, shift_symbol]

theorem foldl_symbols (q x : Residue) :
    ([25, 20, 15, 10, 5, 0].map fun i => (x >>> i).setWidth 5).foldl feed q =
      (List.replicate 6 (0 : Symbol)).foldl feed q ^^^ x := by
  have hstart : q = q ^^^ x >>> (25 + 5) := by
    have htop : x >>> (25 + 5) = 0#30 := BitVec.ushiftRight_eq_zero (by decide)
    rw [htop, BitVec.xor_zero]
  simp only [List.map_cons, List.map_nil, List.foldl_cons, List.foldl_nil, List.replicate]
  conv => lhs; rw [hstart]
  rw [feed_symbol q x 25, feed_symbol _ x 20, feed_symbol _ x 15, feed_symbol _ x 10, feed_symbol _ x 5,
    feed_symbol _ x 0, BitVec.ushiftRight_zero]

theorem residue_append (hrp : List Char) (symbols more : List Symbol) :
    residue hrp (symbols ++ more) = more.foldl feed (residue hrp symbols) := by
  rw [residue, residue, ← List.append_assoc, List.foldl_append]

/-- The six symbols that bring the residue to the constant of an edition. -/
def checksumOf (edition : Residue) (hrp : List Char) (symbols : List Symbol) : List Symbol :=
  [25, 20, 15, 10, 5, 0].map fun i =>
    ((residue hrp (symbols ++ List.replicate 6 0) ^^^ edition) >>> i).setWidth 5

theorem length_checksumOf (edition : Residue) (hrp : List Char) (symbols : List Symbol) :
    (checksumOf edition hrp symbols).length = 6 := rfl

theorem residue_checksumOf (edition : Residue) (hrp : List Char) (symbols : List Symbol) :
    residue hrp (symbols ++ checksumOf edition hrp symbols) = edition := by
  rw [residue_append, checksumOf, foldl_symbols, residue_append]
  let r := (List.replicate 6 (0 : Symbol)).foldl feed (residue hrp symbols)
  show r ^^^ (r ^^^ edition) = edition
  rw [← BitVec.xor_assoc, BitVec.xor_self, BitVec.zero_xor]

/-! ## Bits -/

theorem length_bits (width n : Nat) : (bits width n).length = width := by
  simp [bits]

theorem bits_succ (width n : Nat) : bits (width + 1) n = bits width (n / 2) ++ [n.testBit 0] := by
  simp [bits, List.range_succ_eq_map, Function.comp_def, Nat.testBit_succ]

theorem ofBits_append_singleton (bs : List Bool) (b : Bool) : ofBits (bs ++ [b]) = 2 * ofBits bs + b.toNat := by
  rw [ofBits, List.foldl_append]
  rfl

theorem ofBits_bits {width n : Nat} (h : n < 2 ^ width) : ofBits (bits width n) = n := by
  induction width generalizing n with
  | zero =>
    obtain rfl : n = 0 := by simpa using h
    rfl
  | succ width ih =>
    have hhalf : n / 2 < 2 ^ width := by
      rw [Nat.pow_succ] at h
      omega
    have hlow : (n.testBit 0).toNat = n % 2 := by
      rw [Nat.testBit_zero]
      rcases Nat.mod_two_eq_zero_or_one n with hn | hn <;> simp [hn]
    rw [bits_succ, ofBits_append_singleton, ih hhalf, hlow]
    omega

theorem bits_ofBits (bs : List Bool) : bits bs.length (ofBits bs) = bs := by
  induction bs using List.reverseRecOn with
  | nil => rfl
  | append_singleton bs b ih =>
    have hhigh : (2 * ofBits bs + b.toNat) / 2 = ofBits bs := by
      have hbit : b.toNat < 2 := Bool.toNat_lt b
      omega
    have hlow : (2 * ofBits bs + b.toNat).testBit 0 = b := by
      have hbit : (2 * ofBits bs + b.toNat) % 2 = b.toNat := by
        have hlt : b.toNat < 2 := Bool.toNat_lt b
        omega
      rw [Nat.testBit_zero, hbit]
      cases b <;> rfl
    rw [ofBits_append_singleton, List.length_append, List.length_singleton, bits_succ, hhigh, hlow, ih]

theorem ofBits_lt (bs : List Bool) : ofBits bs < 2 ^ bs.length := by
  induction bs using List.reverseRecOn with
  | nil => decide
  | append_singleton bs b ih =>
    have hbit : b.toNat < 2 := Bool.toNat_lt b
    rw [ofBits_append_singleton, List.length_append, List.length_singleton, Nat.pow_succ]
    omega

/-! ## Regrouping -/

end Bech32

section Pieces

variable {α : Type} {n : Nat}

theorem pieces_append {run : List α} (hn : 0 < n) (hrun : run.length = n) (rest : List α) :
    pieces n (run ++ rest) = run :: pieces n rest := by
  cases run with
  | nil =>
    rw [List.length_nil] at hrun
    omega
  | cons x xs =>
    have hlength : n - 1 = xs.length := by
      rw [List.length_cons] at hrun
      omega
    rw [List.cons_append, pieces, hlength, List.take_left, List.drop_left]

theorem pieces_of_length_lt {xs : List α} (h : xs.length < n) : ∀ run ∈ pieces n xs, run.length < n := by
  cases xs with
  | nil =>
    intro run hrun
    rw [pieces] at hrun
    cases hrun
  | cons x xs =>
    rw [List.length_cons] at h
    intro run hrun
    rw [pieces, List.take_of_length_le (by omega), List.drop_eq_nil_of_le (by omega), pieces,
      List.mem_singleton] at hrun
    rw [hrun]
    exact h

end Pieces

namespace Bech32

/-- The symbol of a run of bits, filled up with zero bits. -/
private def symbolOf (run : List Bool) : Symbol :=
  BitVec.ofNat 5 (ofBits (run ++ List.replicate (5 - run.length) false))

theorem bits_symbolOf {run : List Bool} (h : run.length ≤ 5) :
    bits 5 (symbolOf run).toNat = run ++ List.replicate (5 - run.length) false := by
  have hlength : (run ++ List.replicate (5 - run.length) false).length = 5 := by
    rw [List.length_append, List.length_replicate]
    omega
  have hlt := ofBits_lt (run ++ List.replicate (5 - run.length) false)
  have hbits := bits_ofBits (run ++ List.replicate (5 - run.length) false)
  rw [hlength] at hlt hbits
  rw [symbolOf, BitVec.toNat_ofNat, Nat.mod_eq_of_lt hlt, hbits]

theorem flatMap_symbolOf (bs : List Bool) :
    ∃ k < 5, ((pieces 5 bs).map symbolOf).flatMap (fun s => bits 5 s.toNat) = bs ++ List.replicate k false := by
  fun_induction pieces 5 bs with
  | case1 => exact ⟨0, by decide, rfl⟩
  | case2 b bs ih =>
    have hlength : (b :: bs.take 4).length ≤ 5 := by
      rw [List.length_cons, List.length_take]
      omega
    obtain ⟨k, hk, hrest⟩ := ih
    by_cases hfull : 4 ≤ bs.length
    · have hnone : 5 - (b :: bs.take 4).length = 0 := by
        rw [List.length_cons, List.length_take]
        omega
      refine ⟨k, hk, ?_⟩
      rw [List.map_cons, List.flatMap_cons, hrest, bits_symbolOf hlength, hnone, List.replicate_zero, List.append_nil,
        ← List.append_assoc, List.cons_append, List.take_append_drop]
    · refine ⟨4 - bs.length, by omega, ?_⟩
      have hdrop : bs.drop (5 - 1) = [] := List.drop_eq_nil_of_le (by omega)
      have htake : bs.take (5 - 1) = bs := List.take_of_length_le (by omega)
      rw [hdrop, htake, pieces, List.map_cons, List.map_nil, List.flatMap_cons, List.flatMap_nil, bits_symbolOf]
      · simp
      · rw [List.length_cons]
        omega

/-- The bits of the symbols are those of the bytes, and less than one symbol of zero bits. -/
theorem flatMap_toSymbols (b : Bytes) :
    ∃ k < 5, (toSymbols b).flatMap (fun s => bits 5 s.toNat) =
      b.flatMap (fun x => bits 8 x.toNat) ++ List.replicate k false :=
  flatMap_symbolOf _

theorem length_flatMap_bits {α : Type} (width : Nat) (f : α → Nat) (xs : List α) :
    (xs.flatMap fun x => bits width (f x)).length = width * xs.length := by
  induction xs with
  | nil => rfl
  | cons x xs ih =>
    rw [List.flatMap_cons, List.length_append, ih, length_bits, List.length_cons, Nat.mul_succ]
    omega

theorem length_toSymbols (b : Bytes) : (toSymbols b).length = (8 * b.length + 4) / 5 := by
  obtain ⟨k, hk, hbits⟩ := flatMap_toSymbols b
  have hlength := congrArg List.length hbits
  rw [List.length_append, length_flatMap_bits, length_flatMap_bits, List.length_replicate] at hlength
  omega

theorem flatMap_toSymbols_of_whole {b : Bytes} (h : 8 * b.length % 5 = 0) :
    (toSymbols b).flatMap (fun s => bits 5 s.toNat) = b.flatMap (fun x => bits 8 x.toNat) := by
  obtain ⟨k, hk, hbits⟩ := flatMap_toSymbols b
  have hlength := congrArg List.length hbits
  rw [List.length_append, length_flatMap_bits, length_flatMap_bits, List.length_replicate] at hlength
  obtain rfl : k = 0 := by omega
  rw [hbits, List.replicate_zero, List.append_nil]

theorem filter_pieces_append (b : Bytes) {rest : List Bool} (h : rest.length < 8) :
    ((pieces 8 (b.flatMap (fun x => bits 8 x.toNat) ++ rest)).filter fun run => run.length = 8) =
      b.map fun x => bits 8 x.toNat := by
  induction b with
  | nil =>
    have hshort := pieces_of_length_lt h
    rw [List.flatMap_nil, List.nil_append, List.map_nil, List.filter_eq_nil_iff]
    intro run hrun
    have hlt := hshort run hrun
    simp only [decide_eq_true_eq]
    omega
  | cons x b ih =>
    rw [List.flatMap_cons, List.append_assoc, pieces_append (by decide) (length_bits 8 _), List.map_cons, ← ih]
    exact List.filter_cons_of_pos (decide_eq_true (length_bits 8 _))

theorem ofSymbols_of_bits {symbols : List Symbol} {b : Bytes} {rest : List Bool} (h : rest.length < 8)
    (hbits : symbols.flatMap (fun s => bits 5 s.toNat) = b.flatMap (fun x => bits 8 x.toNat) ++ rest) :
    ofSymbols symbols = b := by
  have hbyte : ∀ x : UInt8, UInt8.ofNat (ofBits (bits 8 x.toNat)) = x := by
    intro x
    rw [ofBits_bits x.toNat_lt, UInt8.ofNat_toNat]
  rw [ofSymbols, hbits, filter_pieces_append b h, List.map_map]
  simp only [Function.comp_def, hbyte, List.map_id']

theorem ofSymbols_toSymbols (b : Bytes) : ofSymbols (toSymbols b) = b := by
  obtain ⟨k, hk, hbits⟩ := flatMap_toSymbols b
  have hlength : (List.replicate k false).length < 8 := by
    rw [List.length_replicate]
    omega
  exact ofSymbols_of_bits hlength hbits

/-! ## Texts -/

theorem symbol?_letter : ∀ s : Symbol, symbol? (letter s) = some s := by decide

theorem letter_spec : ∀ s : Symbol, (letter s).isUpper = false ∧ letter s ≠ '1' := by decide

theorem mapM_symbol?_letter (symbols : List Symbol) : (symbols.map letter).mapM symbol? = some symbols := by
  induction symbols with
  | nil => rfl
  | cons s symbols ih => simp [symbol?_letter, ih]

/-- The last separator is the one in front of the symbols, because no symbol is written as one. -/
theorem split?_letters {hrp : List Char} (hvalid : validHrp hrp = true) (hlower : ∀ c ∈ hrp, c.isUpper = false)
    (symbols : List Symbol) : split? (hrp ++ '1' :: symbols.map letter) = some (hrp, symbols) := by
  have hletters : ∀ c ∈ symbols.map letter, c.isUpper = false ∧ c ≠ '1' := by
    intro c hc
    obtain ⟨s, -, rfl⟩ := List.mem_map.mp hc
    exact letter_spec s
  have hcase : mixesCase (hrp ++ '1' :: symbols.map letter) = false := by
    have hnone : (hrp ++ '1' :: symbols.map letter).any Char.isUpper = false := by
      rw [List.any_eq_false]
      intro c hc
      rcases List.mem_append.mp hc with hc | hc
      · simp [hlower c hc]
      · rcases List.mem_cons.mp hc with rfl | hc
        · decide
        · simp [(hletters c hc).1]
    rw [mixesCase, hnone, Bool.false_and]
  have hsep : ∀ c ∈ (symbols.map letter).reverse, decide (c ≠ '1') = true := by
    intro c hc
    exact decide_eq_true (hletters c (List.mem_reverse.mp hc)).2
  have hback : (hrp ++ '1' :: symbols.map letter).reverse = (symbols.map letter).reverse ++ '1' :: hrp.reverse := by
    simp
  have hdrop : (hrp ++ '1' :: symbols.map letter).reverse.dropWhile (· ≠ '1') = '1' :: hrp.reverse := by
    rw [hback, List.dropWhile_append_of_pos hsep]
    rfl
  have htake : (hrp ++ '1' :: symbols.map letter).reverse.takeWhile (· ≠ '1') = (symbols.map letter).reverse := by
    rw [hback, List.takeWhile_append_of_pos hsep]
    simp
  simp only [split?, hdrop, htake, hcase, hvalid, List.reverse_reverse, mapM_symbol?_letter]
  rfl

theorem decode_checksumOf {edition : Residue} {hrp : List Char} {symbols : List Symbol} (hvalid : validHrp hrp = true)
    (hlower : ∀ c ∈ hrp, c.isUpper = false) (hlength : hrp.length + 7 + symbols.length ≤ 1023)
    (hedition : edition = secondEdition ∨ edition = firstEdition) :
    decode (String.ofList (hrp ++ '1' :: (symbols ++ checksumOf edition hrp symbols).map letter)) =
      .ok (hrp, ofSymbols symbols) := by
  have hsplit := split?_letters hvalid hlower (symbols ++ checksumOf edition hrp symbols)
  have hsymbols : (symbols ++ checksumOf edition hrp symbols).length = symbols.length + 6 := by
    rw [List.length_append, length_checksumOf]
  have htext : (hrp ++ '1' :: (symbols ++ checksumOf edition hrp symbols).map letter).length ≤ 1023 := by
    rw [List.length_append, List.length_cons, List.length_map, hsymbols]
    omega
  have hdata : (symbols ++ checksumOf edition hrp symbols).take ((symbols ++ checksumOf edition hrp symbols).length - 6) =
      symbols := by
    rw [hsymbols, Nat.add_sub_cancel, List.take_left]
  have hshort : 6 ≤ (symbols ++ checksumOf edition hrp symbols).length := by
    rw [hsymbols]
    omega
  simp only [decode, String.toList_ofList, hsplit, residue_checksumOf]
  rw [if_pos ⟨htext, hshort, hedition⟩, hdata]

/-- What was written is read back, if it is not too long for a checksum. -/
theorem decode_encode {hrp : List Char} {b : Bytes} (hvalid : validHrp hrp = true)
    (hlower : ∀ c ∈ hrp, c.isUpper = false) (hlength : hrp.length + 7 + (8 * b.length + 4) / 5 ≤ 1023) :
    decode (encode hrp b) = .ok (hrp, b) := by
  have hfits : hrp.length + 7 + (toSymbols b).length ≤ 1023 := by rwa [length_toSymbols]
  have hdecode := decode_checksumOf hvalid hlower hfits (.inl rfl)
  rw [ofSymbols_toSymbols] at hdecode
  exact hdecode

end Bech32

/-! ## Addresses -/

theorem Address.ofBytes_bytes (a : Address) : ofBytes a.bytes = .ok a := by
  rw [ofBytes, dif_pos a.length_eq]

theorem Address.part_lower : ∀ c ∈ part, c.isUpper = false := by
  have hlower : part.all (fun c => c.isUpper == false) = true := rfl
  intro c hc
  exact eq_of_beq (List.all_eq_true.mp hlower c hc)

theorem Address.ofText_text (a : Address) : ofText a.text = .ok a := by
  have hdecode : Bech32.decode a.text = .ok (part, a.bytes) := by
    apply Bech32.decode_encode
    · rfl
    · exact part_lower
    · have hpart : part.length = 2 := rfl
      have hlength := a.length_eq
      omega
  have hform : ∃ rest, a.text.toList = 'w' :: 'h' :: '1' :: rest := by
    rw [text, Bech32.encode, String.toList_ofList]
    exact ⟨_, rfl⟩
  obtain ⟨rest, hrest⟩ := hform
  simp only [ofText, hrest, hdecode, if_true]
  exact a.ofBytes_bytes

end ContractHost
