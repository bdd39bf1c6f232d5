import ContractHost.Proofs.JsonRecords
import ContractHost.Proofs.JsonTexts
import ContractHost.Proofs.TomlTexts
/-!
# TOML values that were written

A text is read back from its quotes. A number or a truth value is one word, and it is read back from its characters up to
the end of the line.
-/
namespace ContractHost.Toml

variable {c : Char} {w cs rest : List Char}

/-! ## Words -/

theorem takeWhile_append_of_head? {p : Char → Bool} (hw : ∀ c ∈ w, p c = true) (hrest : ∀ c ∈ rest.head?, p c = false) :
    (w ++ rest).takeWhile p = w ∧ (w ++ rest).dropWhile p = rest := by
  rw [List.takeWhile_append_of_pos hw, List.dropWhile_append_of_pos hw]
  cases rest with
  | nil => exact ⟨List.append_nil w, rfl⟩
  | cons c rest =>
    have hc : ¬ p c = true := by simp [hrest c rfl]
    rw [List.takeWhile_cons_of_neg hc, List.dropWhile_cons_of_neg hc]
    exact ⟨List.append_nil w, rfl⟩

theorem word_append (hw : ∀ c ∈ w, isWordChar c = true) (rest : List Char) :
    word (w ++ '\n' :: rest) = (w, '\n' :: rest) := by
  have hend : ∀ c ∈ ('\n' :: rest).head?, isWordChar c = false := by
    rintro c ⟨⟩
    decide
  obtain ⟨htake, hdrop⟩ := takeWhile_append_of_head? hw hend
  rw [word, htake, hdrop]
  rfl

/-! ## Numbers -/

theorem digits_go_true {isDigit : Char → Bool} (h : ∀ c ∈ cs, isDigit c = true ∧ c ≠ '_') :
    digits?.go isDigit true cs = some cs := by
  induction cs with
  | nil => rfl
  | cons c cs ih =>
    obtain ⟨⟨hdigit, hline⟩, hrest⟩ := List.forall_mem_cons.mp h
    rw [digits?.go, if_neg hline, if_pos hdigit, ih hrest]
    rfl

theorem digits?_of_forall {isDigit : Char → Bool} (hcs : cs ≠ []) (h : ∀ c ∈ cs, isDigit c = true ∧ c ≠ '_') :
    digits? isDigit cs = some cs := by
  obtain ⟨c, cs, rfl⟩ := List.exists_cons_of_ne_nil hcs
  obtain ⟨⟨hdigit, hline⟩, hrest⟩ := List.forall_mem_cons.mp h
  rw [digits?, digits?.go, if_neg hline, if_pos hdigit, digits_go_true hrest]
  rfl

theorem hexDigit?_decimal : ∀ d < 10, Json.hexDigit? (Decimal.digit d) = some d ∧ Decimal.digit d ≠ '_' := by decide

theorem inBase?_chars (n : Nat) : inBase? 10 (Decimal.chars n) = some n := by
  obtain ⟨d, ds, hchars, hlt, hvalue, -⟩ := Decimal.chars_eq_map n
  have hvalues : ((d :: ds).map Decimal.digit).mapM Json.hexDigit? = some ((d :: ds).map id) :=
    mapM_map_of_pure fun e he => (hexDigit?_decimal e (hlt e he)).1
  have hne : (d :: ds).map Decimal.digit ≠ [] := List.cons_ne_nil _ _
  rw [inBase?, digitsIn?, hchars, digits?_of_forall hne]
  · simp only [hvalues, List.map_id, Option.map_some, hvalue]
  · intro c hc
    obtain ⟨e, he, rfl⟩ := List.mem_map.mp hc
    obtain ⟨hdigit, hline⟩ := hexDigit?_decimal e (hlt e he)
    simp [hdigit, hlt e he, hline]

theorem hasIdleZero_chars (n : Nat) : hasIdleZero (Decimal.chars n) = false := by
  obtain ⟨d, ds, hchars, hlt, -, hzero⟩ := Decimal.chars_eq_map n
  rw [hchars, List.map_cons]
  unfold hasIdleZero
  split
  · rename_i c rest heq
    obtain ⟨hd, hds⟩ := List.cons.inj heq
    rw [hzero (Decimal.digit_eq_zero d (hlt d List.mem_cons_self) hd)] at hds
    cases hds
  · rfl

theorem inRange_of_bounds {n : Int} (h : minNumber ≤ n ∧ n ≤ maxNumber) : integer?.inRange n = some n :=
  if_pos h

theorem digit_no_sign : ∀ d < 10, Decimal.digit d ≠ '-' ∧ Decimal.digit d ≠ '+' := by decide

theorem digit_no_base : ∀ d < 10, Decimal.digit d ≠ 'x' ∧ Decimal.digit d ≠ 'o' ∧ Decimal.digit d ≠ 'b' := by decide

theorem integer?_chars {n : Nat} (h : (n : Int) ≤ maxNumber) : integer? (Decimal.chars n) = some n := by
  have hidle := hasIdleZero_chars n
  have hvalue := inBase?_chars n
  obtain ⟨d, ds, hchars, hlt, -⟩ := Decimal.chars_eq_map n
  have hsign := digit_no_sign d (hlt d List.mem_cons_self)
  have hbase : ∀ c rest, Decimal.chars n = '0' :: c :: rest → c ≠ 'x' ∧ c ≠ 'o' ∧ c ≠ 'b' := by
    intro c rest heq
    have hmem : c ∈ Decimal.chars n := by rw [heq]; simp
    rw [hchars] at hmem
    obtain ⟨e, he, rfl⟩ := List.mem_map.mp hmem
    exact digit_no_base e (hlt e he)
  have hunsigned : unsigned (Decimal.chars n) = (false, Decimal.chars n) := by
    rw [hchars, List.map_cons]
    unfold unsigned
    split
    · exact absurd (List.cons.inj ‹_›).1 hsign.1
    · exact absurd (List.cons.inj ‹_›).1 hsign.2
    · rfl
  have hrange : integer?.inRange n = some (n : Int) := inRange_of_bounds ⟨by simp [minNumber], h⟩
  unfold integer?
  split
  · exact absurd rfl (hbase _ _ ‹_›).1
  · exact absurd rfl (hbase _ _ ‹_›).2.1
  · exact absurd rfl (hbase _ _ ‹_›).2.2
  · simp [hunsigned, hidle, hvalue, hrange]

theorem integer?_neg_chars {n : Nat} (h : minNumber ≤ -(n : Int)) :
    integer? ('-' :: Decimal.chars n) = some (-(n : Int)) := by
  have hrange : integer?.inRange (-(n : Int)) = some (-(n : Int)) :=
    inRange_of_bounds ⟨h, by simp [maxNumber]⟩
  show (if hasIdleZero (Decimal.chars n) then none else (inBase? 10 (Decimal.chars n)).bind fun n =>
    integer?.inRange (if true then -n else n)) = _
  simp [hasIdleZero_chars, inBase?_chars, hrange]

theorem ofWord?_of_integer? {n : Int} (h : integer? w = some n) : ofWord? w = some (.int n) := by
  have htrue : w ≠ ['t', 'r', 'u', 'e'] := by
    rintro rfl
    cases h
  have hfalse : w ≠ ['f', 'a', 'l', 's', 'e'] := by
    rintro rfl
    cases h
  rw [ofWord?, if_neg htrue, if_neg hfalse, h]

/-! ## Values -/

theorem isWordChar_of_isDigit (h : c.isDigit = true) : isWordChar c = true := by
  simp [isWordChar, Char.isAlphanum, h]

theorem isWordChar_ne (h : isWordChar c = true) :
    c ≠ '[' ∧ c ≠ '\x7b' ∧ c ≠ '"' ∧ c ≠ '\'' ∧ c ≠ ' ' ∧ c ≠ '\t' := by
  refine ⟨?_, ?_, ?_, ?_, ?_, ?_⟩ <;> rintro rfl <;> exact absurd h (by decide)

variable {j : Json} {shown : List Char}

/-- A value that can be written is shown as a text between quotes or as one word. -/
theorem scalar?_cases (h : scalar? j = some shown) :
    (∃ s, j = .text s ∧ shown = quote s) ∨
      shown ≠ [] ∧ (∀ c ∈ shown, isWordChar c = true) ∧ ofWord? shown = some j := by
  have hchars : ∀ n, Decimal.chars n ≠ [] ∧ ∀ c ∈ Decimal.chars n, isWordChar c = true := by
    intro n
    obtain ⟨d, ds, hchars, -⟩ := Decimal.chars_eq_map n
    refine ⟨?_, fun c hc => isWordChar_of_isDigit (Json.isDigit_chars n c hc)⟩
    rw [hchars]
    exact List.cons_ne_nil _ _
  cases j with
  | text s => exact .inl ⟨s, rfl, (Option.some.inj h).symm⟩
  | bool b =>
    cases b <;> obtain rfl := Option.some.inj h
    · exact .inr ⟨List.cons_ne_nil _ _, List.all_eq_true.mp rfl, rfl⟩
    · exact .inr ⟨List.cons_ne_nil _ _, List.all_eq_true.mp rfl, rfl⟩
  | int n =>
    rw [scalar?] at h
    split at h
    · rename_i hrange
      obtain rfl := Option.some.inj h
      cases n with
      | ofNat n =>
        have htext : (Decimal.integerText (.ofNat n)).toList = Decimal.chars n := by
          rw [Decimal.integerText, Decimal.text, String.toList_ofList]
        rw [htext]
        exact .inr ⟨(hchars n).1, (hchars n).2, ofWord?_of_integer? (integer?_chars hrange.2)⟩
      | negSucc n =>
        have htext : (Decimal.integerText (.negSucc n)).toList = '-' :: Decimal.chars (n + 1) := by
          simp [Decimal.integerText, Decimal.text]
        rw [htext]
        refine .inr ⟨List.cons_ne_nil _ _, List.forall_mem_cons.mpr ⟨by decide, (hchars (n + 1)).2⟩, ?_⟩
        exact ofWord?_of_integer? (integer?_neg_chars hrange.1)
    · cases h
  | null => cases h
  | list => cases h
  | object => cases h
  | unheld => cases h

theorem value_eq_scalar (hlist : c ≠ '[') (htable : c ≠ '\x7b') (depth : Nat) (cs : List Char) :
    value (depth + 1) (c :: cs) = scalar (c :: cs) := by
  rw [value]
  · exact fun _ h => hlist (List.cons.inj h).1
  · exact fun _ h => htable (List.cons.inj h).1

theorem ends_lineEnd (rest : List Char) : Ends ('\n' :: rest) := by
  rintro q (rfl | rfl) <;> exact fun h => absurd (Option.some.inj h) (by decide)

theorem exists_quote (s : String) : ∃ q body, IsQuote q ∧ quote s = q :: body := by
  simp only [quote]
  repeat' split
  all_goals first
    | exact ⟨'"', _, .inl rfl, rfl⟩
    | exact ⟨'\'', _, .inr rfl, rfl⟩

theorem scalar_quote (s : String) (rest : List Char) :
    scalar (quote s ++ '\n' :: rest) = some (.text s, '\n' :: rest) := by
  have hread := quoted_quote s (ends_lineEnd rest)
  obtain ⟨q, body, hq, hquote⟩ := exists_quote s
  rw [hquote] at hread ⊢
  rcases hq with rfl | rfl
  · show (quoted ('"' :: body ++ '\n' :: rest)).map _ = _
    rw [hread]
    simp
  · show (quoted ('\'' :: body ++ '\n' :: rest)).map _ = _
    rw [hread]
    simp

theorem scalar_word (hne : w ≠ []) (hw : ∀ c ∈ w, isWordChar c = true) (hj : ofWord? w = some j) (rest : List Char) :
    scalar (w ++ '\n' :: rest) = some (j, '\n' :: rest) := by
  have hread := word_append hw rest
  obtain ⟨c, w, rfl⟩ := List.exists_cons_of_ne_nil hne
  obtain ⟨-, -, hdouble, hsingle, -⟩ := isWordChar_ne (hw c List.mem_cons_self)
  rw [List.cons_append] at hread ⊢
  rw [scalar]
  · simp only [hread, hj, Option.map_some]
  · exact fun _ h => hdouble (List.cons.inj h).1
  · exact fun _ h => hsingle (List.cons.inj h).1

/-- A value that was written is read back up to the end of its line; it does not begin with a blank. -/
theorem value_scalar? (h : scalar? j = some shown) (depth : Nat) (rest : List Char) :
    value (depth + 1) (skipBlanks (shown ++ '\n' :: rest)) = some (j, '\n' :: rest) := by
  obtain ⟨c, body, hshown, hlist, htable, hblank, hscalar⟩ : ∃ c body, shown = c :: body ∧ c ≠ '[' ∧ c ≠ '\x7b' ∧
      (c ≠ ' ' ∧ c ≠ '\t') ∧ scalar (shown ++ '\n' :: rest) = some (j, '\n' :: rest) := by
    rcases scalar?_cases h with ⟨s, rfl, rfl⟩ | ⟨hne, hw, hj⟩
    · obtain ⟨q, body, hq, hquote⟩ := exists_quote s
      refine ⟨q, body, hquote, ?_, ?_, ?_, scalar_quote s rest⟩ <;> rcases hq with rfl | rfl <;> decide
    · have hread := scalar_word hne hw hj rest
      obtain ⟨c, body, rfl⟩ := List.exists_cons_of_ne_nil hne
      obtain ⟨hlist, htable, -, -, hspace, htab⟩ := isWordChar_ne (hw c List.mem_cons_self)
      exact ⟨c, body, rfl, hlist, htable, ⟨hspace, htab⟩, hread⟩
  have hskip : skipBlanks (shown ++ '\n' :: rest) = shown ++ '\n' :: rest := by
    rw [hshown]
    exact List.dropWhile_cons_of_neg (by simp [hblank])
  rw [hskip, ← hscalar, hshown]
  exact value_eq_scalar hlist htable depth _

end ContractHost.Toml
