import Mathlib.Algebra.Group.Nat.Defs
import ContractHost.Proofs.Amounts
import ContractHost.Text.Json.Reader
/-!
# JSON texts that were written

The indented text of a value is read back as the value. The first pass finds the tokens of the value, whatever stands
behind it, if it cannot be taken for part of a word; the second pass supplies the value to the containers that are open.
-/
namespace ContractHost

namespace Json

/-! ## Words -/

theorem isDigit_digit : ∀ d < 10, (Decimal.digit d).isDigit = true := by decide

theorem isWordChar_of_isDigit {c : Char} (h : c.isDigit = true) : isWordChar c = true := by
  simp [isWordChar, Char.isAlphanum, h]

theorem isDigit_chars (n : Nat) : ∀ c ∈ Decimal.chars n, c.isDigit = true := by
  obtain ⟨d, ds, hchars, hlt, -⟩ := Decimal.chars_eq_map n
  intro c hc
  rw [hchars] at hc
  obtain ⟨e, he, rfl⟩ := List.mem_map.mp hc
  exact isDigit_digit e (hlt e he)

theorem unsigned?_chars (negative : Bool) (n : Nat) : unsigned? negative (Decimal.chars n) =
    some (if negative then if n = 0 then .unheld else .int (-n) else .int n) := by
  obtain ⟨d, ds, hchars, hlt, hvalue, hzero⟩ := Decimal.chars_eq_map n
  have hdigits := isDigit_chars n
  have htake : (Decimal.chars n).takeWhile Char.isDigit = Decimal.chars n := by
    rw [← List.append_nil (Decimal.chars n), List.takeWhile_append_of_pos hdigits]
    rfl
  have hdrop : (Decimal.chars n).dropWhile Char.isDigit = [] := by
    rw [← List.append_nil (Decimal.chars n), List.dropWhile_append_of_pos hdigits]
    rfl
  have hread := Decimal.ofDigits?_chars n
  rw [hchars, List.map_cons] at htake hdrop hread
  have hleading : ¬ (Decimal.digit d = '0' ∧ (!(ds.map Decimal.digit).isEmpty) = true) := by
    intro h
    have hd := Decimal.digit_eq_zero d (hlt d List.mem_cons_self) h.1
    have hempty := h.2
    rw [hzero hd] at hempty
    cases hempty
  rw [hchars, List.map_cons]
  simp only [unsigned?, htake, hdrop, hread, if_neg hleading, List.isEmpty_nil, if_true]
  cases negative <;> simp
  by_cases hn : n = 0 <;> simp [hn]

theorem ofWord?_of_isDigit {c : Char} {cs : List Char} (h : c.isDigit = true) :
    ofWord? (c :: cs) = unsigned? false (c :: cs) := by
  unfold ofWord?
  split <;> simp_all

/-- A value that is written as one word. -/
inductive IsWord : Json → Prop where
  | null : IsWord .null
  | bool (b : Bool) : IsWord (.bool b)
  | int (n : Int) : IsWord (.int n)

theorem scalarChars_ofNat (n : Nat) : scalarChars (.int (.ofNat n)) = Decimal.chars n := by
  rw [scalarChars, Decimal.integerText, Decimal.text, String.toList_ofList]

theorem scalarChars_negSucc (n : Nat) : scalarChars (.int (.negSucc n)) = '-' :: Decimal.chars (n + 1) := by
  simp [scalarChars, Decimal.integerText, Decimal.text]

theorem ofWord?_scalarChars {j : Json} (h : j.IsWord) : ofWord? (scalarChars j) = some j := by
  cases h with
  | null => rfl
  | bool b => cases b <;> rfl
  | int n =>
    cases n with
    | ofNat n =>
      have hread := unsigned?_chars false n
      obtain ⟨d, ds, hchars, hlt, -⟩ := Decimal.chars_eq_map n
      have hdigit := isDigit_digit d (hlt d List.mem_cons_self)
      rw [hchars, List.map_cons, ← ofWord?_of_isDigit hdigit, ← List.map_cons, ← hchars] at hread
      rw [scalarChars_ofNat, hread]
      rfl
    | negSucc n =>
      have hread := unsigned?_chars true (n + 1)
      have hsign : ofWord? ('-' :: Decimal.chars (n + 1)) = unsigned? true (Decimal.chars (n + 1)) := rfl
      rw [scalarChars_negSucc, hsign, hread]
      simp [Int.negSucc_eq]

theorem scalarChars_isWordChar {j : Json} (h : j.IsWord) :
    scalarChars j ≠ [] ∧ ∀ c ∈ scalarChars j, isWordChar c = true := by
  have hnumber : ∀ n, Decimal.chars n ≠ [] ∧ ∀ c ∈ Decimal.chars n, isWordChar c = true := by
    intro n
    have hdigits := isDigit_chars n
    obtain ⟨d, ds, hchars, -⟩ := Decimal.chars_eq_map n
    refine ⟨?_, fun c hc => isWordChar_of_isDigit (hdigits c hc)⟩
    rw [hchars]
    exact List.cons_ne_nil _ _
  cases h with
  | null => exact ⟨List.cons_ne_nil _ _, List.all_eq_true.mp rfl⟩
  | bool b => cases b <;> exact ⟨List.cons_ne_nil _ _, List.all_eq_true.mp rfl⟩
  | int n =>
    cases n with
    | ofNat n =>
      rw [scalarChars_ofNat]
      exact hnumber n
    | negSucc n =>
      rw [scalarChars_negSucc]
      refine ⟨List.cons_ne_nil _ _, ?_⟩
      intro c hc
      rcases List.mem_cons.mp hc with rfl | hc
      · decide
      · exact (hnumber (n + 1)).2 c hc

/-! ## Texts -/

theorem hexDigit?_digit : ∀ n < 16, hexDigit? (Hex.digit n) = some n := by decide

theorem toNat_not_surrogate (c : Char) : ¬ (0xD800 ≤ c.toNat ∧ c.toNat ≤ 0xDFFF) := by
  have hvalid : c.toNat < 0xD800 ∨ 0xDFFF < c.toNat ∧ c.toNat < 0x110000 := c.valid
  omega

theorem ofUnits_toNat (cs : List Char) : ofUnits (cs.map Char.toNat) = some cs := by
  induction cs with
  | nil => rfl
  | cons c cs ih =>
    rw [List.map_cons, ofUnits.eq_def]
    simp only [if_neg (toNat_not_surrogate c), ih, Option.map_some, Char.ofNat_toNat]

theorem foldlM_escape (found : List Token) (units : List Nat) (c : Char) :
    (escape c).foldlM scan (found, .quoted units) = some (found, .quoted (c.toNat :: units)) := by
  by_cases hquote : c = '"'
  · subst hquote
    rfl
  by_cases hslash : c = '\\'
  · subst hslash
    rfl
  unfold escape
  rw [if_neg hquote, if_neg hslash]
  repeat' split
  case isFalse.isFalse.isFalse.isFalse.isFalse.isTrue hc =>
    have hhigh := hexDigit?_digit (c.toNat / 16) (by omega)
    have hlow := hexDigit?_digit (c.toNat % 16) (by omega)
    have hzero : hexDigit? '0' = some 0 := by decide
    have hunit : 16 * (c.toNat / 16) + c.toNat % 16 = c.toNat := Nat.div_add_mod _ _
    simp [scan, hzero, hhigh, hlow, hunit]
  case isFalse.isFalse.isFalse.isFalse.isFalse.isFalse hc =>
    simp [scan, hquote, hslash, hc]
  all_goals
    rename_i hc
    rw [hc]
    rfl

theorem foldlM_flatMap_escape (found : List Token) (units : List Nat) (cs : List Char) :
    (cs.flatMap escape).foldlM scan (found, .quoted units) =
      some (found, .quoted ((cs.map Char.toNat).reverse ++ units)) := by
  induction cs generalizing units with
  | nil => rfl
  | cons c cs ih =>
    rw [List.flatMap_cons, List.foldlM_append, foldlM_escape]
    show (cs.flatMap escape).foldlM scan (found, .quoted (c.toNat :: units)) = _
    rw [ih, List.map_cons, List.reverse_cons, List.append_assoc, List.singleton_append]

/-! ## The first pass -/

/-- A text in which these tokens are found, whatever stands behind it. -/
def Closed (cs : List Char) (ts : List Token) : Prop :=
  ∀ found, cs.foldlM scan (found, .between) = some (ts.reverse ++ found, .between)

/-- A text in which these tokens are found, if it is not part of a word that goes on behind it. -/
def Scans (cs : List Char) (ts : List Token) : Prop :=
  ∀ found c rest, isWordChar c = false →
    (cs ++ c :: rest).foldlM scan (found, .between) = (c :: rest).foldlM scan (ts.reverse ++ found, .between)

/-- A text that does not go on with a word. -/
def Apart (cs : List Char) : Prop :=
  ∀ c ∈ cs.head?, isWordChar c = false

variable {cs cs' : List Char} {ts ts' : List Token} {j : Json}

theorem Closed.append (h : Closed cs ts) (h' : Closed cs' ts') : Closed (cs ++ cs') (ts ++ ts') := by
  intro found
  rw [List.foldlM_append, h found, List.reverse_append, List.append_assoc]
  exact h' _

theorem Closed.scans (h : Closed cs ts) : Scans cs ts := by
  intro found c rest _
  rw [List.foldlM_append, h found]
  rfl

theorem Closed.append_scans (h : Closed cs ts) (h' : Scans cs' ts') : Scans (cs ++ cs') (ts ++ ts') := by
  intro found c rest hc
  rw [List.append_assoc, List.foldlM_append, h found, List.reverse_append, List.append_assoc]
  exact h' _ c rest hc

theorem Scans.append (h : Scans cs ts) (h' : Scans cs' ts') (hapart : Apart cs') : Scans (cs ++ cs') (ts ++ ts') := by
  intro found c rest hc
  cases cs' with
  | nil =>
    have hnone := h' (ts.reverse ++ found) c rest hc
    rw [List.append_nil, h found c rest hc, List.reverse_append, List.append_assoc]
    exact hnone
  | cons c' cs' =>
    have hnext : isWordChar c' = false := hapart c' rfl
    rw [List.append_assoc, List.cons_append, h found c' _ hnext, List.reverse_append, List.append_assoc]
    exact h' _ c rest hc

theorem closed_quote (s : String) : Closed (quote s) [.text (some s)] := by
  intro found
  have hbody := foldlM_flatMap_escape found [] s.toList
  have hend : scan (found, .quoted (s.toList.map Char.toNat).reverse) '"' =
      some (.text (some s) :: found, .between) := by
    simp [scan, ofUnits_toNat]
  rw [quote, List.foldlM_cons]
  show (s.toList.flatMap escape ++ ['"']).foldlM scan (found, .quoted []) = _
  rw [List.foldlM_append, hbody, List.append_nil]
  exact hend

theorem closed_newLine (depth : Nat) : Closed (newLine depth) [] := by
  have hblanks : ∀ n, Closed (List.replicate n ' ') [] := by
    intro n found
    induction n with
    | zero => rfl
    | succ n ih => exact ih
  exact hblanks (2 * depth)

theorem scanBetween_of_isWordChar {c : Char} (h : isWordChar c = true) (found : List Token) :
    scanBetween found c = some (found, .word [c]) := by
  have hne : ∀ d, isWordChar d = false → c ≠ d := by
    intro d hd hcd
    rw [hcd, hd] at h
    cases h
  simp [scanBetween, h, hne ' ' (by decide), hne '\n' (by decide), hne '\t' (by decide), hne '\r' (by decide),
    hne '[' (by decide), hne ']' (by decide), hne '\x7b' (by decide), hne '\x7d' (by decide), hne ',' (by decide),
    hne ':' (by decide), hne '"' (by decide)]

theorem foldlM_word (found : List Token) (read : List Char) (h : ∀ c ∈ cs, isWordChar c = true) :
    cs.foldlM scan (found, .word read) = some (found, .word (cs.reverse ++ read)) := by
  induction cs generalizing read with
  | nil => rfl
  | cons c cs ih =>
    have hc : scan (found, .word read) c = some (found, .word (c :: read)) := by
      rw [scan, if_pos (h c List.mem_cons_self)]
    rw [List.foldlM_cons, hc, List.reverse_cons, List.append_assoc]
    exact ih (c :: read) fun d hd => h d (List.mem_cons_of_mem _ hd)

theorem scans_word (h : j.IsWord) : Scans (scalarChars j) [.word j] := by
  intro found c rest hc
  obtain ⟨hne, hword⟩ := scalarChars_isWordChar h
  have hvalue := ofWord?_scalarChars h
  cases hchars : scalarChars j with
  | nil => exact absurd hchars hne
  | cons d ds =>
    rw [hchars] at hword hvalue
    have hfirst := scanBetween_of_isWordChar (hword d List.mem_cons_self) found
    have hrest := foldlM_word found [d] fun e he => hword e (List.mem_cons_of_mem _ he)
    have hend : scan (found, .word (ds.reverse ++ [d])) c = scan (.word j :: found, .between) c := by
      have hback : (ds.reverse ++ [d]).reverse = d :: ds := by simp
      simp only [scan, hc, hback, hvalue]
      rfl
    rw [List.cons_append, List.foldlM_cons]
    show (scanBetween found d).bind _ = _
    rw [hfirst]
    show (ds ++ c :: rest).foldlM scan (found, .word [d]) = _
    rw [List.foldlM_append, hrest]
    show (c :: rest).foldlM scan (found, .word (ds.reverse ++ [d])) = _
    rw [List.foldlM_cons, List.foldlM_cons, hend]
    rfl

/-! ## The tokens of a value -/

mutual

def tokens : Json → List Token
  | .list xs => .openList :: (elementTokens true xs ++ [.closeList])
  | .object ms => .openObject :: (memberTokens true ms ++ [.closeObject])
  | .text s => [.text (some s)]
  | j => [.word j]

def elementTokens (first : Bool) : List Json → List Token
  | [] => []
  | j :: rest => (if first then [] else [.comma]) ++ (tokens j ++ elementTokens false rest)

def memberTokens (first : Bool) : List (String × Json) → List Token
  | [] => []
  | (k, j) :: rest =>
    (if first then [] else [.comma]) ++ ([.text (some k), .colon] ++ (tokens j ++ memberTokens false rest))

end

/-- A value without parts that are not held. -/
inductive Held : Json → Prop where
  | word {j : Json} (h : j.IsWord) : Held j
  | text (s : String) : Held (.text s)
  | list {xs : List Json} (h : ∀ j ∈ xs, Held j) : Held (.list xs)
  | object {ms : List (String × Json)} (h : ∀ m ∈ ms, Held m.2) : Held (.object ms)

theorem tokens_word (h : j.IsWord) : tokens j = [.word j] := by
  cases h <;> rfl

theorem prettyChars_word (h : j.IsWord) (depth : Nat) : prettyChars depth j = scalarChars j := by
  cases h <;> rfl

theorem closed_lead (first : Bool) (depth : Nat) :
    Closed ((if first then [] else [',']) ++ newLine depth) (if first then [] else [.comma]) := by
  cases first with
  | true => exact closed_newLine depth
  | false =>
    intro found
    exact closed_newLine depth (.comma :: found)

theorem scans_elements {xs : List Json} (h : ∀ j ∈ xs, ∀ depth, Scans (prettyChars depth j) (tokens j)) (depth : Nat)
    (first : Bool) : Scans (prettyElements depth first xs) (elementTokens first xs) := by
  induction xs generalizing first with
  | nil =>
    intro found c rest _
    rfl
  | cons j xs ih =>
    have hj := h j List.mem_cons_self depth
    have hrest := ih (fun k hk => h k (List.mem_cons_of_mem _ hk)) false
    have hapart : Apart (prettyElements depth false xs) := by
      cases xs with
      | nil =>
        intro c hc
        cases hc
      | cons k xs =>
        intro c hc
        cases hc
        decide
    rw [prettyElements, elementTokens, ← List.append_assoc]
    exact (closed_lead first depth).append_scans (hj.append hrest hapart)

theorem scans_members {ms : List (String × Json)}
    (h : ∀ m ∈ ms, ∀ depth, Scans (prettyChars depth m.2) (tokens m.2)) (depth : Nat) (first : Bool) :
    Scans (prettyMembers depth first ms) (memberTokens first ms) := by
  induction ms generalizing first with
  | nil =>
    intro found c rest _
    rfl
  | cons m ms ih =>
    obtain ⟨k, j⟩ := m
    have hj := h (k, j) List.mem_cons_self depth
    have hrest := ih (fun m hm => h m (List.mem_cons_of_mem _ hm)) false
    have hapart : Apart (prettyMembers depth false ms) := by
      cases ms with
      | nil =>
        intro c hc
        cases hc
      | cons m ms =>
        intro c hc
        cases hc
        decide
    have hcolon : Closed [':', ' '] [.colon] := fun found => rfl
    have hkey : Closed (quote k ++ [':', ' ']) [.text (some k), .colon] := (closed_quote k).append hcolon
    have hmember := (closed_lead first depth).append_scans (hkey.append_scans (hj.append hrest hapart))
    rw [prettyMembers, memberTokens]
    simpa using hmember

theorem Held.scans (h : j.Held) (depth : Nat) : Scans (prettyChars depth j) (tokens j) := by
  induction h generalizing depth with
  | word h =>
    rw [prettyChars_word h, tokens_word h]
    exact scans_word h
  | text s => exact (closed_quote s).scans
  | @list xs h ih =>
    have hopen : Closed ['['] [.openList] := fun found => rfl
    have hend : Closed [']'] [.closeList] := fun found => rfl
    cases xs with
    | nil => exact (hopen.append hend).scans
    | cons k xs =>
      have helements := scans_elements ih (depth + 1) true
      have hclose := (closed_newLine depth).append hend
      have hapart : Apart (newLine depth ++ [']']) := by
        intro c hc
        cases hc
        decide
      exact hopen.append_scans (helements.append hclose.scans hapart)
  | @object ms h ih =>
    have hopen : Closed ['\x7b'] [.openObject] := fun found => rfl
    have hend : Closed ['\x7d'] [.closeObject] := fun found => rfl
    cases ms with
    | nil => exact (hopen.append hend).scans
    | cons m ms =>
      have hmembers := scans_members ih (depth + 1) true
      have hclose := (closed_newLine depth).append hend
      have hapart : Apart (newLine depth ++ ['\x7d']) := by
        intro c hc
        cases hc
        decide
      exact hopen.append_scans (hmembers.append hclose.scans hapart)

theorem Held.tokens?_pretty (h : j.Held) : tokens? (prettyChars 0 j) = some (tokens j) := by
  have hscan := h.scans 0 [] ' ' [] (by decide)
  have hblank : [' '].foldlM scan ((tokens j).reverse ++ [], .between) = some ((tokens j).reverse ++ [], .between) := rfl
  rw [tokens?, hscan, hblank]
  simp

/-! ## The second pass -/

/-- A value that is supplied to the open containers when its tokens have been read. -/
def Supplied (j : Json) : Prop :=
  ∀ stack rest, (tokens j ++ rest).foldlM build (stack, .value) = (supply stack j).bind (rest.foldlM build ·)

theorem foldlM_element (h : j.Held) (stack : List Open) (rest : List Token) :
    (tokens j ++ rest).foldlM build (stack, .element) = (tokens j ++ rest).foldlM build (stack, .value) := by
  cases h with
  | word h =>
    rw [tokens_word h]
    rfl
  | text s => rfl
  | list h => rfl
  | object h => rfl

theorem build_elements {xs : List Json} (h : ∀ j ∈ xs, Supplied j) (read : List Json) (stack : List Open)
    (rest : List Token) :
    (elementTokens false xs ++ rest).foldlM build (.list read :: stack, .separator) =
      rest.foldlM build (.list (xs.reverse ++ read) :: stack, .separator) := by
  induction xs generalizing read with
  | nil => rfl
  | cons j xs ih =>
    have hj := h j List.mem_cons_self (.list read :: stack) (elementTokens false xs ++ rest)
    have hrest := ih (fun k hk => h k (List.mem_cons_of_mem _ hk)) (j :: read)
    rw [elementTokens, List.append_assoc, List.append_assoc, List.reverse_cons, List.append_assoc]
    show (tokens j ++ (elementTokens false xs ++ rest)).foldlM build (.list read :: stack, .value) = _
    rw [hj]
    exact hrest

theorem build_member {k : String} (h : Supplied j) (read : List (String × Json)) (stack : List Open)
    (rest : List Token) :
    ([Token.colon] ++ (tokens j ++ rest)).foldlM build (.member (some read) (some k) :: stack, .colon) =
      rest.foldlM build (.object (some ((k, j) :: read)) :: stack, .separator) :=
  h (.member (some read) (some k) :: stack) rest

theorem build_members {ms : List (String × Json)} (h : ∀ m ∈ ms, Supplied m.2) (read : List (String × Json))
    (stack : List Open) (rest : List Token) :
    (memberTokens false ms ++ rest).foldlM build (.object (some read) :: stack, .separator) =
      rest.foldlM build (.object (some (ms.reverse ++ read)) :: stack, .separator) := by
  induction ms generalizing read with
  | nil => rfl
  | cons m ms ih =>
    obtain ⟨k, j⟩ := m
    have hj : Supplied j := h (k, j) List.mem_cons_self
    have hmember := build_member (k := k) hj read stack (memberTokens false ms ++ rest)
    have hrest := ih (fun m hm => h m (List.mem_cons_of_mem _ hm)) ((k, j) :: read)
    rw [memberTokens, List.append_assoc, List.append_assoc, List.append_assoc, List.reverse_cons, List.append_assoc]
    show ([Token.colon] ++ (tokens j ++ (memberTokens false ms ++ rest))).foldlM build
      (.member (some read) (some k) :: stack, .colon) = _
    rw [hmember]
    exact hrest

theorem Held.supplied (h : j.Held) : Supplied j := by
  induction h with
  | word h =>
    intro stack rest
    rw [tokens_word h]
    rfl
  | text s =>
    intro stack rest
    rfl
  | @list xs h ih =>
    intro stack rest
    rw [tokens, List.cons_append, List.append_assoc]
    show (elementTokens true xs ++ ([Token.closeList] ++ rest)).foldlM build (.list [] :: stack, .element) = _
    cases xs with
    | nil => rfl
    | cons k xs =>
      have hk := h k List.mem_cons_self
      have hsupplied := ih k List.mem_cons_self
      have hrest := build_elements (fun x hx => ih x (List.mem_cons_of_mem _ hx)) [k] stack ([Token.closeList] ++ rest)
      have hback : (xs.reverse ++ [k]).reverse = k :: xs := by simp
      rw [elementTokens, List.append_assoc, List.append_assoc]
      show (tokens k ++ (elementTokens false xs ++ ([Token.closeList] ++ rest))).foldlM build (.list [] :: stack, .element) = _
      rw [foldlM_element hk, hsupplied]
      show (elementTokens false xs ++ ([Token.closeList] ++ rest)).foldlM build (.list [k] :: stack, .separator) = _
      rw [hrest]
      exact congrArg (fun ys => (supply stack (.list ys)).bind (rest.foldlM build ·)) hback
  | @object ms h ih =>
    intro stack rest
    rw [tokens, List.cons_append, List.append_assoc]
    show (memberTokens true ms ++ ([Token.closeObject] ++ rest)).foldlM build (.object (some []) :: stack, .key) = _
    cases ms with
    | nil => rfl
    | cons m ms =>
      obtain ⟨k, j⟩ := m
      have hsupplied : Supplied j := ih (k, j) List.mem_cons_self
      have hmember := build_member (k := k) hsupplied [] stack (memberTokens false ms ++ ([Token.closeObject] ++ rest))
      have hrest := build_members (fun m hm => ih m (List.mem_cons_of_mem _ hm)) [(k, j)] stack
        ([Token.closeObject] ++ rest)
      have hback : (ms.reverse ++ [(k, j)]).reverse = (k, j) :: ms := by simp
      rw [memberTokens, List.append_assoc, List.append_assoc, List.append_assoc]
      show ([Token.colon] ++ (tokens j ++ (memberTokens false ms ++ ([Token.closeObject] ++ rest)))).foldlM build
        (.member (some []) (some k) :: stack, .colon) = _
      rw [hmember, hrest]
      exact congrArg (fun ns => (supply stack (.object ns)).bind (rest.foldlM build ·)) hback

/-- A value without unheld parts is read back from its indented text. -/
theorem Held.parse?_pretty (h : j.Held) : parse? j.pretty = some j := by
  have htokens := h.tokens?_pretty
  have hbuild := h.supplied [] []
  rw [List.append_nil] at hbuild
  rw [parse?, pretty, String.toList_ofList, htokens]
  simp only [hbuild]
  rfl

end Json

end ContractHost
