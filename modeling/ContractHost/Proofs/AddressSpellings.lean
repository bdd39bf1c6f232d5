import ContractHost.Proofs.AddressTexts
/-!
# Spellings of an address

The checksum of a text is determined by its other symbols and the edition, and the bytes of an address determine its 32
symbols. Reading takes the checksum of either edition, and it drops the bits of a 33rd symbol, which do not fill a byte. A
text that begins as a bech32m address and is read as an address is one of these few.
-/
namespace ContractHost

namespace Bech32

variable {edition : Residue} {hrp : List Char} {symbols sums : List Symbol} {b : Bytes}

/-! ## Checksums -/

theorem exists_digits (hlength : sums.length = 6) :
    ∃ x : Residue, sums = [25, 20, 15, 10, 5, 0].map fun i => (x >>> i).setWidth 5 := by
  obtain ⟨s₀, s₁, s₂, s₃, s₄, s₅, rfl⟩ : ∃ s₀ s₁ s₂ s₃ s₄ s₅, sums = [s₀, s₁, s₂, s₃, s₄, s₅] :=
    match sums, hlength with
    | [s₀, s₁, s₂, s₃, s₄, s₅], _ => ⟨s₀, s₁, s₂, s₃, s₄, s₅, rfl⟩
  have h₀ := s₀.isLt
  have h₁ := s₁.isLt
  have h₂ := s₂.isLt
  have h₃ := s₃.isLt
  have h₄ := s₄.isLt
  have h₅ := s₅.isLt
  refine ⟨BitVec.ofNat 30 (((((s₀.toNat * 32 + s₁.toNat) * 32 + s₂.toNat) * 32 + s₃.toNat) * 32 + s₄.toNat) * 32 +
    s₅.toNat), ?_⟩
  simp only [List.map_cons, List.map_nil, List.cons.injEq, and_true, BitVec.toNat_eq, BitVec.toNat_setWidth,
    BitVec.toNat_ushiftRight, BitVec.toNat_ofNat, Nat.shiftRight_eq_div_pow]
  omega

theorem eq_checksumOf (hlength : sums.length = 6) (h : residue hrp (symbols ++ sums) = edition) :
    sums = checksumOf edition hrp symbols := by
  obtain ⟨x, rfl⟩ := exists_digits hlength
  rw [residue_append, foldl_symbols] at h
  have hx : x = residue hrp (symbols ++ List.replicate 6 0) ^^^ edition := by
    rw [residue_append, ← h, ← BitVec.xor_assoc, BitVec.xor_self, BitVec.zero_xor]
  rw [checksumOf, ← hx]

/-- The last six symbols are the checksum of those before them for the constant that the residue is. -/
theorem take_append_checksumOf (hrp : List Char) (h : 6 ≤ symbols.length) :
    symbols.take (symbols.length - 6) ++
      checksumOf (residue hrp symbols) hrp (symbols.take (symbols.length - 6)) = symbols := by
  have hcut := List.take_append_drop (symbols.length - 6) symbols
  have hlength : (symbols.drop (symbols.length - 6)).length = 6 := by
    rw [List.length_drop]
    omega
  rw [← eq_checksumOf hlength (congrArg (residue hrp) hcut), hcut]

/-! ## Symbols of bytes -/

theorem flatten_filter_pieces {n : Nat} (hn : 0 < n) (bs : List Bool) :
    ∃ rest, rest.length < n ∧ bs = ((pieces n bs).filter fun run => run.length = n).flatten ++ rest := by
  fun_induction pieces n bs with
  | case1 => exact ⟨[], hn, rfl⟩
  | case2 x xs ih =>
    by_cases hfull : n - 1 ≤ xs.length
    · obtain ⟨rest, hrest, hcover⟩ := ih
      have hrun : (x :: xs.take (n - 1)).length = n := by
        rw [List.length_cons, List.length_take]
        omega
      refine ⟨rest, hrest, ?_⟩
      rw [List.filter_cons, if_pos (decide_eq_true hrun), List.flatten_cons, List.append_assoc, ← hcover,
        List.cons_append, List.take_append_drop]
    · have hlength : (x :: xs).length < n := by
        rw [List.length_cons]
        omega
      have hshort := pieces_of_length_lt hlength
      rw [pieces] at hshort
      refine ⟨x :: xs, hlength, ?_⟩
      rw [List.filter_eq_nil_iff.mpr, List.flatten_nil, List.nil_append]
      intro run hrun
      have hlt := hshort run hrun
      simp only [decide_eq_true_eq]
      omega

theorem flatMap_ofSymbols (symbols : List Symbol) :
    ∃ rest : List Bool, rest.length < 8 ∧
      symbols.flatMap (fun s => bits 5 s.toNat) = (ofSymbols symbols).flatMap (fun x => bits 8 x.toNat) ++ rest := by
  obtain ⟨rest, hrest, hcover⟩ := flatten_filter_pieces (n := 8) (by decide) (symbols.flatMap fun s => bits 5 s.toNat)
  have hbits : (ofSymbols symbols).flatMap (fun x => bits 8 x.toNat) =
      ((pieces 8 (symbols.flatMap fun s => bits 5 s.toNat)).filter fun run => run.length = 8).flatten := by
    rw [ofSymbols, List.flatMap_def, List.map_map]
    conv => rhs; rw [← List.map_id (List.filter _ _)]
    refine congrArg List.flatten (List.map_congr_left fun run hrun => ?_)
    have hlength : run.length = 8 := of_decide_eq_true (List.mem_filter.mp hrun).2
    have hlt := ofBits_lt run
    have hbits := bits_ofBits run
    rw [hlength] at hlt hbits
    show bits 8 (UInt8.ofNat (ofBits run)).toNat = run
    rw [UInt8.toNat_ofNat', Nat.mod_eq_of_lt hlt, hbits]
  exact ⟨rest, hrest, hbits ▸ hcover⟩

theorem bits_inj {s t : Symbol} (h : bits 5 s.toNat = bits 5 t.toNat) : s = t := by
  have hnat := congrArg ofBits h
  rw [ofBits_bits s.isLt, ofBits_bits t.isLt] at hnat
  exact BitVec.eq_of_toNat_eq hnat

theorem eq_append_of_flatMap {more : List Symbol} {rest : List Bool}
    (h : symbols.flatMap (fun s => bits 5 s.toNat) = more.flatMap (fun s => bits 5 s.toNat) ++ rest) :
    ∃ extra, symbols = more ++ extra ∧ rest = extra.flatMap (fun s => bits 5 s.toNat) := by
  induction more generalizing symbols with
  | nil => exact ⟨symbols, rfl, h.symm⟩
  | cons t more ih =>
    cases symbols with
    | nil =>
      have hlength := congrArg List.length h
      rw [List.length_append, length_flatMap_bits, length_flatMap_bits, List.length_nil, List.length_cons] at hlength
      omega
    | cons s symbols =>
      rw [List.flatMap_cons, List.flatMap_cons, List.append_assoc] at h
      obtain ⟨hhead, htail⟩ := List.append_inj h (by rw [length_bits, length_bits])
      obtain ⟨extra, rfl, hrest⟩ := ih htail
      exact ⟨extra, by rw [bits_inj hhead, List.cons_append], hrest⟩

/-- Bytes whose bits fill the last symbol are denoted by their own symbols and perhaps one more, and by no others. -/
theorem ofSymbols_eq_iff (hwhole : 8 * b.length % 5 = 0) :
    ofSymbols symbols = b ↔ ∃ extra : List Symbol, extra.length ≤ 1 ∧ symbols = toSymbols b ++ extra := by
  constructor
  · rintro rfl
    obtain ⟨rest, hrest, hbits⟩ := flatMap_ofSymbols symbols
    rw [← flatMap_toSymbols_of_whole hwhole] at hbits
    obtain ⟨extra, hextra, rfl⟩ := eq_append_of_flatMap hbits
    rw [length_flatMap_bits] at hrest
    exact ⟨extra, by omega, hextra⟩
  · rintro ⟨extra, hextra, rfl⟩
    have hrest : (extra.flatMap fun s => bits 5 s.toNat).length < 8 := by
      rw [length_flatMap_bits]
      omega
    apply ofSymbols_of_bits hrest
    rw [List.flatMap_append, flatMap_toSymbols_of_whole hwhole]

/-! ## Texts -/

theorem letter_injective : Function.Injective letter := by
  intro s t h
  have hsymbol := congrArg symbol? h
  rw [symbol?_letter, symbol?_letter] at hsymbol
  exact Option.some.inj hsymbol

theorem toLower_eq_self {c : Char} (h : c.isUpper = false) : c.toLower = c :=
  dif_neg (of_decide_eq_false h)

theorem toLower_eq_letter {c : Char} {s : Symbol} (h : symbol? c = some s) : c.toLower = letter s := by
  simp only [symbol?, Option.map_eq_some_iff, List.idxOf?_eq_some_iff] at h
  obtain ⟨i, ⟨hi, hchar, -⟩, rfl⟩ := h
  have hlt : i < 2 ^ 5 := hi
  rw [letter, BitVec.toNat_ofNat, Nat.mod_eq_of_lt hlt]
  simp [List.getD, hi, hchar]

theorem eq_map_letter {data : List Char} (h : data.mapM symbol? = some symbols)
    (hlower : ∀ c ∈ data, c.isUpper = false) : data = symbols.map letter := by
  induction data generalizing symbols with
  | nil =>
    cases h
    rfl
  | cons c data ih =>
    simp only [List.mapM_cons, Option.bind_eq_bind, Option.bind_eq_some_iff, Option.pure_def, Option.some.injEq] at h
    obtain ⟨s, hs, rest, hrest, rfl⟩ := h
    have hc : c.toLower = c := toLower_eq_self (hlower c List.mem_cons_self)
    rw [List.map_cons, ← toLower_eq_letter hs, hc, ← ih hrest fun d hd => hlower d (List.mem_cons_of_mem _ hd)]

theorem split?_eq_some {cs : List Char} (h : split? cs = some (hrp, symbols)) :
    ∃ data, cs = hrp ++ '1' :: data ∧ mixesCase cs = false ∧ data.mapM symbol? = some symbols := by
  simp only [split?] at h
  split at h
  · cases h
  · rename_i c front hdrop
    split at h
    · cases h
    · rename_i hform
      obtain ⟨symbols, hsymbols, heq⟩ := Option.map_eq_some_iff.mp h
      cases heq
      have hone := List.head?_dropWhile_not (fun c => decide (c ≠ '1')) cs.reverse
      rw [hdrop] at hone
      obtain rfl : c = '1' := by simpa using hone
      have hback : cs.reverse = cs.reverse.takeWhile (· ≠ '1') ++ '1' :: front := by
        rw [← hdrop, List.takeWhile_append_dropWhile]
      have hcase : mixesCase cs = false := by
        rw [Bool.or_eq_true, not_or, Bool.not_eq_true] at hform
        exact hform.1
      refine ⟨_, ?_, hcase, hsymbols⟩
      calc cs = cs.reverse.reverse := cs.reverse_reverse.symm
        _ = (cs.reverse.takeWhile (· ≠ '1') ++ '1' :: front).reverse := congrArg List.reverse hback
        _ = front.reverse ++ '1' :: (cs.reverse.takeWhile (· ≠ '1')).reverse := by
          rw [List.reverse_append, List.reverse_cons, List.append_assoc, List.singleton_append]

theorem lower_of_mixesCase {cs : List Char} (h : mixesCase cs = false) (hsmall : cs.any Char.isLower = true) :
    ∀ c ∈ cs, c.isUpper = false := by
  rw [mixesCase, hsmall, Bool.and_true, List.any_eq_false] at h
  intro c hc
  exact eq_false_of_ne_true (h c hc)

/-- A text of a human-readable part with small letters is read exactly if it is written in small letters and has the
checksum of one of the editions. -/
theorem decode_eq_ok_iff {s : String} (hvalid : validHrp hrp = true) (hlower : ∀ c ∈ hrp, c.isUpper = false)
    (hsmall : hrp.any Char.isLower = true) :
    decode s = .ok (hrp, b) ↔ ∃ edition ∈ [secondEdition, firstEdition], ∃ symbols : List Symbol,
      hrp.length + 7 + symbols.length ≤ 1023 ∧ ofSymbols symbols = b ∧
        s = String.ofList (hrp ++ '1' :: (symbols ++ checksumOf edition hrp symbols).map letter) := by
  constructor
  · intro h
    simp only [decode] at h
    split at h
    · cases h
    · rename_i found symbols hsplit
      split at h
      · rename_i hfits
        cases h
        obtain ⟨data, hform, hcase, hdata⟩ := split?_eq_some hsplit
        have hany : s.toList.any Char.isLower = true := by rw [hform, List.any_append, hsmall, Bool.true_or]
        have hnone := lower_of_mixesCase hcase hany
        rw [hform] at hnone
        have hletters : data = symbols.map letter :=
          eq_map_letter hdata fun c hc => hnone c (List.mem_append_right _ (List.mem_cons_of_mem _ hc))
        -- The residue, which is the constant of an edition, says which checksum the last six symbols are.
        have hsums := take_append_checksumOf hrp hfits.2.1
        rw [hform, hletters, List.length_append, List.length_cons, List.length_map] at hfits
        refine ⟨residue hrp symbols, by simpa using hfits.2.2, symbols.take (symbols.length - 6), ?_, rfl, ?_⟩
        · rw [List.length_take]
          omega
        · rw [hsums, ← hletters, ← hform, String.ofList_toList]
      · cases h
  · rintro ⟨edition, hedition, symbols, hlength, rfl, rfl⟩
    exact decode_checksumOf hvalid hlower hlength (by simpa using hedition)

end Bech32

namespace Address

open Bech32 (Symbol Residue secondEdition firstEdition)

/-- The text of an address with further symbols behind its own and the checksum of an edition. -/
def spelling (a : Address) (edition : Residue) (extra : List Symbol) : String :=
  let symbols := Bech32.toSymbols a.bytes ++ extra
  String.ofList (part ++ '1' :: (symbols ++ Bech32.checksumOf edition part symbols).map Bech32.letter)

theorem decode_eq_ok_iff (s : String) (a : Address) :
    Bech32.decode s = .ok (part, a.bytes) ↔ ∃ edition ∈ [secondEdition, firstEdition], ∃ extra : List Symbol,
      extra.length ≤ 1 ∧ s = a.spelling edition extra := by
  have hlength := a.length_eq
  have hwhole : 8 * a.bytes.length % 5 = 0 := by omega
  rw [Bech32.decode_eq_ok_iff rfl part_lower rfl]
  constructor
  · rintro ⟨edition, hedition, symbols, -, hsymbols, rfl⟩
    obtain ⟨extra, hextra, rfl⟩ := (Bech32.ofSymbols_eq_iff hwhole).mp hsymbols
    exact ⟨edition, hedition, extra, hextra, rfl⟩
  · rintro ⟨edition, hedition, extra, hextra, rfl⟩
    refine ⟨edition, hedition, Bech32.toSymbols a.bytes ++ extra, ?_, ?_, rfl⟩
    · have hpart : part.length = 2 := rfl
      rw [List.length_append, Bech32.length_toSymbols]
      omega
    · exact (Bech32.ofSymbols_eq_iff hwhole).mpr ⟨extra, hextra, rfl⟩

theorem ofBytes_eq_ok_iff {b : Bytes} {a : Address} : ofBytes b = .ok a ↔ b = a.bytes := by
  constructor
  · intro h
    simp only [ofBytes] at h
    split at h
    · cases h
      rfl
    · cases h
  · rintro rfl
    exact a.ofBytes_bytes

theorem ofText_of_begins {s : String} (h : ['w', 'h', '1'] <+: s.toList) (a : Address) :
    ofText s = .ok a ↔ Bech32.decode s = .ok (part, a.bytes) := by
  obtain ⟨rest, hrest⟩ := h
  simp only [ofText, ← hrest, List.cons_append, List.nil_append]
  cases Bech32.decode s with
  | error e => simp
  | ok found =>
    obtain ⟨found, b⟩ := found
    by_cases hpart : found = part
    · simp [hpart, ofBytes_eq_ok_iff]
    · simp [hpart]

theorem begins_spelling (a : Address) (edition : Residue) (extra : List Symbol) :
    ['w', 'h', '1'] <+: (a.spelling edition extra).toList := by
  rw [spelling, String.toList_ofList]
  exact ⟨_, rfl⟩

theorem text_eq_spelling (a : Address) : a.text = a.spelling secondEdition [] := by
  simp only [spelling, List.append_nil]
  rfl

theorem spelling_eq_text_iff (a : Address) (edition : Residue) (extra : List Symbol) :
    a.spelling edition extra = a.text ↔ edition = secondEdition ∧ extra = [] := by
  constructor
  · intro h
    rw [text_eq_spelling, spelling, spelling, String.ofList_inj, List.append_cancel_left_eq, List.cons.injEq] at h
    have hsymbols := (List.map_inj_right fun _ _ hletter => Bech32.letter_injective hletter).mp h.2
    have hlength := congrArg List.length hsymbols
    simp only [List.length_append, Bech32.length_checksumOf, List.length_nil] at hlength
    obtain rfl : extra = [] := List.eq_nil_of_length_eq_zero (by omega)
    have hresidue := congrArg (Bech32.residue part) hsymbols
    rw [Bech32.residue_checksumOf, Bech32.residue_checksumOf] at hresidue
    exact ⟨hresidue, rfl⟩
  · rintro ⟨rfl, rfl⟩
    exact a.text_eq_spelling.symm

/-- A text that begins as a bech32m address is read as an address exactly if it is one of its spellings: the symbols of
the address, perhaps one more, and the checksum of either edition. Only without one more and with the checksum of the
second edition is it the text of the address. -/
theorem ofText_bech32_iff (s : String) (a : Address) :
    (['w', 'h', '1'] <+: s.toList ∧ ofText s = .ok a ↔
      ∃ edition ∈ [secondEdition, firstEdition], ∃ extra : List Symbol,
        extra.length ≤ 1 ∧ s = a.spelling edition extra) ∧
    ∀ edition extra, a.spelling edition extra = a.text ↔ edition = secondEdition ∧ extra = [] := by
  refine ⟨⟨?read, ?spelled⟩, a.spelling_eq_text_iff⟩
  case read =>
    rintro ⟨hbegins, hread⟩
    exact (decode_eq_ok_iff s a).mp ((ofText_of_begins hbegins a).mp hread)
  case spelled =>
    intro hspelled
    have hdecode := (decode_eq_ok_iff s a).mpr hspelled
    obtain ⟨edition, -, extra, -, rfl⟩ := hspelled
    have hbegins := a.begins_spelling edition extra
    exact ⟨hbegins, (ofText_of_begins hbegins a).mpr hdecode⟩

def counting : Address :=
  ⟨(List.range 20).map UInt8.ofNat, rfl⟩

/-- The checksum of the first edition, and a symbol more with the checksum of the second one, give two further texts that
are read as an address. -/
theorem counting_respelled :
    let first := "wh1qqqsyqcyq5rqwzqfpg9scrgwpugpzysn4q4axh"
    let longer := "wh1qqqsyqcyq5rqwzqfpg9scrgwpugpzysnlccg97n"
    (['w', 'h', '1'] <+: first.toList ∧ ofText first = .ok counting ∧ first ≠ counting.text) ∧
    (['w', 'h', '1'] <+: longer.toList ∧ ofText longer = .ok counting ∧ longer ≠ counting.text) := by
  decide +kernel

end Address

end ContractHost
