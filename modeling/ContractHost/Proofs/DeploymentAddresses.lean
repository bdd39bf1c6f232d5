import ContractHost.Address
import ContractHost.Arguments
import ContractHost.Proofs.WireFields
/-!
# What contract addresses are taken from

The digest of the code, the packed arguments and the nonce are hashed one behind the other. Written arguments say where
they end, but nothing says how many there are: a nonce that starts like a further argument can be read as one. This is the
only way in which two deployments of a code share what is hashed.
-/
namespace ContractHost

/-! ## Written arguments with something behind them -/

namespace Wire

/-- A written number says where it ends: the last byte alone is below 128. -/
theorem putVarint_append_inj {m n : Nat} {rest rest' : Bytes} (h : putVarint m ++ rest = putVarint n ++ rest') :
    m = n ∧ rest = rest' := by
  induction m using putVarint.induct generalizing n with
  | case1 m hm =>
    rw [putVarint_of_lt hm, List.cons_append] at h
    by_cases hn : n < 128
    · rw [putVarint_of_lt hn, List.cons_append] at h
      obtain ⟨hbyte, hrest⟩ := List.cons.inj h
      have hvalue := congrArg UInt8.toNat hbyte
      rw [toNat_last hm, toNat_last hn] at hvalue
      exact ⟨hvalue, hrest⟩
    · rw [putVarint_of_not_lt hn, List.cons_append] at h
      have hvalue := congrArg UInt8.toNat (List.cons.inj h).1
      rw [toNat_last hm, toNat_group] at hvalue
      omega
  | case2 m hm ih =>
    rw [putVarint_of_not_lt hm, List.cons_append] at h
    by_cases hn : n < 128
    · rw [putVarint_of_lt hn, List.cons_append] at h
      have hvalue := congrArg UInt8.toNat (List.cons.inj h).1
      rw [toNat_last hn, toNat_group] at hvalue
      omega
    · rw [putVarint_of_not_lt hn, List.cons_append] at h
      obtain ⟨hbyte, hmore⟩ := List.cons.inj h
      have hvalue := congrArg UInt8.toNat hbyte
      rw [toNat_group, toNat_group] at hvalue
      obtain ⟨hquotient, hrest⟩ := ih hmore
      exact ⟨by omega, hrest⟩

theorem putDelimited_append_inj {tag : Nat} {b b' rest rest' : Bytes}
    (h : putDelimited tag b ++ rest = putDelimited tag b' ++ rest') : b = b' ∧ rest = rest' := by
  simp only [putDelimited, List.append_assoc] at h
  obtain ⟨hlength, hbehind⟩ := putVarint_append_inj (List.append_cancel_left h)
  exact List.append_inj hbehind hlength

@[simp] theorem putArguments_cons (x : Bytes) (xs : List Bytes) :
    putArguments (x :: xs) = putDelimited 1 x ++ putArguments xs :=
  List.flatMap_cons

@[simp] theorem putArguments_append (xs ys : List Bytes) :
    putArguments (xs ++ ys) = putArguments xs ++ putArguments ys :=
  List.flatMap_append

end Wire

/-- The first list goes on in the second one, and the first nonce goes on behind these arguments as they are written. -/
def Arguments.Extends (args : List Bytes) (nonce : Bytes) (args' : List Bytes) (nonce' : Bytes) : Prop :=
  ∃ more, args' = args ++ more ∧ nonce = Wire.putArguments more ++ nonce'

open Arguments (Extends)

theorem Wire.putArguments_append_eq_iff {xs ys : List Bytes} {rest rest' : Bytes} :
    putArguments xs ++ rest = putArguments ys ++ rest' ↔ Extends xs rest ys rest' ∨ Extends ys rest' xs rest := by
  constructor
  · intro h
    induction xs generalizing ys with
    | nil => exact .inl ⟨ys, rfl, h⟩
    | cons x xs ih =>
      cases ys with
      | nil => exact .inr ⟨x :: xs, rfl, h.symm⟩
      | cons y ys =>
        simp only [putArguments_cons, List.append_assoc] at h
        obtain ⟨rfl, hrest⟩ := putDelimited_append_inj h
        rcases ih hrest with ⟨more, rfl, hmore⟩ | ⟨more, rfl, hmore⟩
        · exact .inl ⟨more, rfl, hmore⟩
        · exact .inr ⟨more, rfl, hmore⟩
  · rintro (⟨more, rfl, rfl⟩ | ⟨more, rfl, rfl⟩)
    · rw [putArguments_append, List.append_assoc]
    · rw [putArguments_append, List.append_assoc]

/-! ## Addresses -/

namespace Address

theorem contractPreimage_eq_iff {code nonce nonce' : Bytes} {args args' : List Bytes} :
    contractPreimage code (Arguments.pack args) nonce = contractPreimage code (Arguments.pack args') nonce' ↔
      Extends args nonce args' nonce' ∨ Extends args' nonce' args nonce := by
  rw [← Wire.putArguments_append_eq_iff]
  simp only [contractPreimage, Arguments.pack, List.append_assoc, List.cons_append]
  constructor
  · intro h
    exact (List.cons.inj (List.append_cancel_left h)).2
  · intro h
    rw [h]

/-- Byte strings whose digests start with the same 20 bytes. -/
def Collide (b b' : Bytes) : Prop :=
  b ≠ b' ∧ (Digest.of b).bytes.take 20 = (Digest.of b').bytes.take 20

theorem ofContract_eq_iff {code args nonce code' args' nonce' : Bytes} :
    ofContract code args nonce = ofContract code' args' nonce' ↔
      contractPreimage code args nonce = contractPreimage code' args' nonce' ∨
        Collide (contractPreimage code args nonce) (contractPreimage code' args' nonce') := by
  constructor
  · intro h
    by_cases hsame : contractPreimage code args nonce = contractPreimage code' args' nonce'
    · exact .inl hsame
    · exact .inr ⟨hsame, congrArg Address.bytes h⟩
  · rintro (hsame | ⟨-, hdigest⟩)
    · simp only [ofContract, hsame]
    · simp only [ofContract, hdigest]

/-- What is hashed for two deployments of a code is the same just if one of the argument lists goes on in the other one
with what its nonce starts with. All other deployments have a common address only if what is hashed for them collides. -/
theorem contractPreimage_shared (code nonce nonce' : Bytes) (args args' : List Bytes) :
    let hashed := contractPreimage code (Arguments.pack args) nonce
    let hashed' := contractPreimage code (Arguments.pack args') nonce'
    (hashed = hashed' ↔ Extends args nonce args' nonce' ∨ Extends args' nonce' args nonce) ∧
    (ofContract code (Arguments.pack args) nonce = ofContract code (Arguments.pack args') nonce' ↔
      (Extends args nonce args' nonce' ∨ Extends args' nonce' args nonce) ∨ Collide hashed hashed') := by
  refine ⟨contractPreimage_eq_iff, ?_⟩
  rw [ofContract_eq_iff, contractPreimage_eq_iff]

/-- No argument and a nonce of three bytes is hashed like one argument and no nonce. -/
theorem contractPreimage_ambiguous :
    (Arguments.pack [], ([10, 1, 97] : Bytes)) ≠ (Arguments.pack [[97]], []) ∧
      contractPreimage [1] (Arguments.pack []) [10, 1, 97] = contractPreimage [1] (Arguments.pack [[97]]) [] ∧
      ofContract [1] (Arguments.pack []) [10, 1, 97] = ofContract [1] (Arguments.pack [[97]]) [] := by
  have hwritten : Wire.putArguments [[97]] = [10, 1, 97] := by
    simp [Wire.putArguments, Wire.putDelimited, Wire.putKey, Wire.putVarint, Wire.WireType.code]
  have hsame : contractPreimage [1] (Arguments.pack []) [10, 1, 97] = contractPreimage [1] (Arguments.pack [[97]]) [] :=
    contractPreimage_eq_iff.mpr (.inl ⟨[[97]], rfl, by rw [hwritten]; rfl⟩)
  exact ⟨fun h => List.cons_ne_nil _ _ (congrArg Prod.snd h), hsame, ofContract_eq_iff.mpr (.inl hsame)⟩

end Address

end ContractHost
