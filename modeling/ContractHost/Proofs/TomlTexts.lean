import ContractHost.Text.Toml
import ContractHost.Text.Toml.Reader
/-!
# TOML texts that were written

A text is read back from any of the forms it may be written in. What stands between the quotes shows the text character by
character: as itself, as an escape, or as one of at most two quotes in a row where three end the text (`Shown`). The
readers find the text from this alone; the writer has only to keep to it.
-/
namespace ContractHost.Toml

/-! ## Runs of a character -/

/-- The length of the run of a character that a text begins with. -/
def lead (q : Char) (cs : List Char) : Nat :=
  (cs.takeWhile (· = q)).length

variable {q c : Char} {w cs rest : List Char}

theorem lead_cons_self (q : Char) (cs : List Char) : lead q (q :: cs) = lead q cs + 1 := by
  simp [lead]

theorem lead_cons_of_ne (h : c ≠ q) (cs : List Char) : lead q (c :: cs) = 0 := by
  simp [lead, h]

theorem lead_of_head?_ne (h : cs.head? ≠ some q) : lead q cs = 0 := by
  cases cs with
  | nil => rfl
  | cons c cs => exact lead_cons_of_ne (fun hc => h (congrArg some hc)) cs

theorem lead_replicate_append (n : Nat) (cs : List Char) : lead q (List.replicate n q ++ cs) = n + lead q cs := by
  induction n with
  | zero => exact (Nat.zero_add _).symm
  | succ n ih =>
    rw [List.replicate_succ, List.cons_append, lead_cons_self, ih]
    omega

theorem lead_append (h : ∃ c ∈ w, c ≠ q) (cs : List Char) : lead q (w ++ cs) = lead q w := by
  induction w with
  | nil => obtain ⟨c, hc, -⟩ := h; cases hc
  | cons d w ih =>
    by_cases hd : d = q
    · subst hd
      have hrest : ∃ c ∈ w, c ≠ d := by
        obtain ⟨c, hc, hne⟩ := h
        exact ⟨c, (List.mem_cons.mp hc).resolve_left hne, hne⟩
      rw [List.cons_append, lead_cons_self, lead_cons_self, ih hrest]
    · rw [List.cons_append, lead_cons_of_ne hd, lead_cons_of_ne hd]

/-- The longest run so far and the current one, with a further character. -/
def runStep (q : Char) (runs : Nat × Nat) (c : Char) : Nat × Nat :=
  let now := if c = q then runs.2 + 1 else 0
  (if runs.1 < now then now else runs.1, now)

theorem longestRun_eq (q : Char) (cs : List Char) : longestRun q cs = (cs.foldl (runStep q) (0, 0)).1 :=
  rfl

theorem runStep_bounds (q c : Char) (runs : Nat × Nat) :
    runs.1 ≤ (runStep q runs c).1 ∧ (runStep q runs c).2 ≤ (runStep q runs c).1 := by
  simp only [runStep]
  split <;> split <;> omega

theorem add_lead_le_foldl {runs : Nat × Nat} (h : runs.2 ≤ runs.1) (cs : List Char) :
    runs.1 ≤ (cs.foldl (runStep q) runs).1 ∧ runs.2 + lead q cs ≤ (cs.foldl (runStep q) runs).1 := by
  induction cs generalizing runs with
  | nil => exact ⟨Nat.le_refl _, h⟩
  | cons c cs ih =>
    obtain ⟨hbest, hnow⟩ := runStep_bounds q c runs
    obtain ⟨hle, hlead⟩ := ih hnow
    rw [List.foldl_cons]
    refine ⟨Nat.le_trans hbest hle, ?_⟩
    by_cases hc : c = q
    · have hstep : (runStep q runs c).2 = runs.2 + 1 := if_pos hc
      subst hc
      rw [lead_cons_self]
      omega
    · rw [lead_cons_of_ne hc]
      omega

theorem lead_le_foldl {runs : Nat × Nat} (h : runs.2 ≤ runs.1) (hw : w <:+ cs) :
    lead q w ≤ (cs.foldl (runStep q) runs).1 := by
  induction cs generalizing runs with
  | nil =>
    rw [List.suffix_nil.mp hw]
    exact Nat.zero_le _
  | cons c cs ih =>
    rcases List.suffix_cons_iff.mp hw with rfl | hw
    · have hlead := (add_lead_le_foldl (q := q) h (c :: cs)).2
      omega
    · exact ih (runStep_bounds q c runs).2 hw

theorem lead_le_longestRun (hw : w <:+ cs) : lead q w ≤ longestRun q cs := by
  rw [longestRun_eq]
  exact lead_le_foldl (Nat.le_refl 0) hw

/-! ## What stands between quotes -/

/-- These characters behind a backslash stand for a character, and the backslash is no escaped line end. -/
def IsEscape (e : List Char) (c : Char) : Prop :=
  ∀ rest, escape (e ++ rest) = some (c, rest) ∧ skipFold (e ++ rest) = none

/-- How a text is shown between quotes `q`, on one line or on several `lines`. -/
inductive Shown (lines escapes : Bool) (q : Char) : List Char → List Char → Prop where
  | nil : Shown lines escapes q [] []
  | plain {c : Char} {w cs : List Char} (hprinting : isPrinting c = true) (hquote : c ≠ q)
      (hslash : escapes = true → c ≠ '\\') (h : Shown lines escapes q w cs) : Shown lines escapes q (c :: w) (c :: cs)
  | escaped {e : List Char} {c : Char} {w cs : List Char} (hescapes : escapes = true) (he : IsEscape e c)
      (h : Shown lines escapes q w cs) : Shown lines escapes q ('\\' :: (e ++ w)) (c :: cs)
  | lineEnd {w cs : List Char} (hlines : lines = true) (h : Shown lines escapes q w cs) :
      Shown lines escapes q ('\n' :: w) ('\n' :: cs)
  /-- A quote that is not the first of three. -/
  | quote {w cs : List Char} (hlines : lines = true) (hrun : lead q (q :: w) ≤ 2) (h : Shown lines escapes q w cs) :
      Shown lines escapes q (q :: w) (q :: cs)

def IsQuote (q : Char) : Prop :=
  q = '"' ∨ q = '\''

theorem IsQuote.ne (h : IsQuote q) : q ≠ '\\' ∧ q ≠ '\n' ∧ q ≠ '\r' := by
  rcases h with rfl | rfl <;> decide

theorem ne_lineEnd_of_isPrinting (h : isPrinting c = true) : c ≠ '\n' ∧ c ≠ '\r' := by
  constructor <;> rintro rfl <;> exact absurd h (by decide)

theorem lineEnd?_cons_of_ne (hfeed : c ≠ '\n') (hreturn : c ≠ '\r') (cs : List Char) : lineEnd? (c :: cs) = none := by
  unfold lineEnd?
  split <;> simp_all

variable {lines escapes : Bool}

namespace Shown

theorem eq_of_forall (h : Shown lines escapes q w cs) (hq : IsQuote q) (hw : ∀ c ∈ w, c = q) : cs = w := by
  induction h with
  | nil => rfl
  | plain _ _ _ _ ih => rw [ih fun c hc => hw c (List.mem_cons_of_mem _ hc)]
  | escaped => exact absurd (hw '\\' List.mem_cons_self).symm hq.ne.1
  | lineEnd _ _ ih => rw [ih fun c hc => hw c (List.mem_cons_of_mem _ hc)]
  | quote _ _ _ ih => rw [ih fun c hc => hw c (List.mem_cons_of_mem _ hc)]

theorem head?_ne (h : Shown false escapes q w cs) (hq : IsQuote q) : w.head? ≠ some q := by
  cases h with
  | nil => exact (Option.some_ne_none q).symm
  | plain _ hquote _ _ => exact fun h => hquote (Option.some.inj h)
  | escaped => exact fun h => hq.ne.1 (Option.some.inj h).symm
  | lineEnd hlines => cases hlines
  | quote hlines => cases hlines

theorem lineEnd?_eq_none (h : Shown lines escapes q w cs) (hq : IsQuote q) (hcs : '\n' ∉ cs) (rest : List Char) :
    lineEnd? (w ++ q :: rest) = none := by
  cases h with
  | nil => exact lineEnd?_cons_of_ne hq.ne.2.1 hq.ne.2.2 _
  | plain hprinting _ _ _ =>
    obtain ⟨hfeed, hreturn⟩ := ne_lineEnd_of_isPrinting hprinting
    exact lineEnd?_cons_of_ne hfeed hreturn _
  | escaped => exact lineEnd?_cons_of_ne (by decide) (by decide) _
  | lineEnd => exact absurd List.mem_cons_self hcs
  | quote => exact lineEnd?_cons_of_ne hq.ne.2.1 hq.ne.2.2 _

end Shown

/-! ## Reading -/

variable {e : List Char} (rounds : Nat) (read : List Char)

theorem basicFor_plain (hprinting : isPrinting c = true) (hquote : c ≠ '"') (hslash : c ≠ '\\') :
    basicFor (rounds + 1) read (c :: rest) = basicFor rounds (c :: read) rest := by
  rw [basicFor, if_pos hprinting]
  · exact hquote
  · exact hslash

theorem basicFor_escaped (he : IsEscape e c) :
    basicFor (rounds + 1) read ('\\' :: (e ++ rest)) = basicFor rounds (c :: read) rest := by
  show (escape (e ++ rest) >>= _) = _
  rw [(he rest).1]
  rfl

theorem literalFor_plain (hprinting : isPrinting c = true) (hquote : c ≠ '\'') :
    literalFor (rounds + 1) read (c :: rest) = literalFor rounds (c :: read) rest := by
  rw [literalFor, if_pos hprinting]
  exact hquote

theorem linesFor_plain (hprinting : isPrinting c = true) (hquote : c ≠ q) (hslash : escapes = true → c ≠ '\\') :
    linesFor escapes q (rounds + 1) read (c :: rest) = linesFor escapes q rounds (c :: read) rest := by
  obtain ⟨hfeed, hreturn⟩ := ne_lineEnd_of_isPrinting hprinting
  rw [linesFor, if_neg hquote, lineEnd?_cons_of_ne hfeed hreturn]
  show (if c = '\\' ∧ escapes = true then _ else _) = _
  rw [if_neg fun h => hslash h.2 h.1, if_pos hprinting]

theorem linesFor_escaped (hq : q ≠ '\\') (he : IsEscape e c) :
    linesFor true q (rounds + 1) read ('\\' :: (e ++ rest)) = linesFor true q rounds (c :: read) rest := by
  obtain ⟨hescape, hfold⟩ := he rest
  rw [linesFor, if_neg hq.symm, lineEnd?_cons_of_ne (by decide) (by decide)]
  show (if '\\' = '\\' ∧ true = true then _ else _) = _
  rw [if_pos ⟨rfl, rfl⟩, hfold]
  show (escape (e ++ rest) >>= _) = _
  rw [hescape]
  rfl

theorem linesFor_lineEnd (hq : q ≠ '\n') :
    linesFor escapes q (rounds + 1) read ('\n' :: rest) = linesFor escapes q rounds ('\n' :: read) rest := by
  rw [linesFor, if_neg hq.symm]
  rfl

theorem linesFor_quote (hrun : lead q (q :: rest) ≤ 2) :
    linesFor escapes q (rounds + 1) read (q :: rest) = linesFor escapes q rounds (q :: read) rest := by
  have hclose : closeLines q read (q :: rest) = some none := if_pos (Nat.lt_succ_of_le hrun)
  rw [linesFor, if_pos rfl, hclose]

theorem linesFor_close {n : Nat} (hn : n ≤ 2) (hrest : rest.head? ≠ some q) :
    linesFor escapes q (rounds + 1) read (List.replicate n q ++ q :: q :: q :: rest) =
      some (read.reverse ++ List.replicate n q, rest) := by
  have hend : q :: q :: q :: rest = List.replicate 3 q ++ rest := rfl
  have hrun : lead q (List.replicate (n + 3) q ++ rest) = n + 3 := by
    rw [lead_replicate_append, lead_of_head?_ne hrest]
  have hclose : closeLines q read (List.replicate (n + 3) q ++ rest) =
      some (some (read.reverse ++ List.replicate n q, rest)) := by
    show (if lead q _ < 3 then _ else if 5 < lead q _ then _ else
      some (some (read.reverse ++ List.replicate (lead q _ - 3) q, List.drop (lead q _) _))) = _
    rw [hrun, if_neg (by omega), if_neg (by omega), Nat.add_sub_cancel, List.drop_left' List.length_replicate]
  rw [hend, ← List.append_assoc, List.replicate_append_replicate]
  rw [List.replicate_succ, List.cons_append] at hclose ⊢
  rw [linesFor, if_pos rfl, hclose]

namespace Shown

variable {rounds : Nat}

theorem read_basic (h : Shown false true '"' w cs) (hrounds : w.length < rounds) (rest : List Char) :
    basicFor rounds read (w ++ '"' :: rest) = some (read.reverse ++ cs, rest) := by
  induction h generalizing rounds read with
  | nil =>
    obtain ⟨rounds, rfl⟩ := Nat.exists_eq_add_one.mpr (Nat.zero_lt_of_lt hrounds)
    rw [List.append_nil]
    rfl
  | @plain c w cs hprinting hquote hslash h ih =>
    obtain ⟨rounds, rfl⟩ := Nat.exists_eq_add_one.mpr (Nat.zero_lt_of_lt hrounds)
    have hlength : w.length < rounds := Nat.lt_of_succ_lt_succ hrounds
    rw [List.cons_append, basicFor_plain _ _ hprinting hquote (hslash rfl), ih _ hlength]
    simp
  | @escaped e c w cs hescapes he h ih =>
    obtain ⟨rounds, rfl⟩ := Nat.exists_eq_add_one.mpr (Nat.zero_lt_of_lt hrounds)
    have hlength : w.length < rounds := by
      rw [List.length_cons, List.length_append] at hrounds
      omega
    rw [List.cons_append, List.append_assoc, basicFor_escaped _ _ he, ih _ hlength]
    simp
  | lineEnd hlines => cases hlines
  | quote hlines => cases hlines

theorem read_literal (h : Shown false false '\'' w cs) (hrounds : w.length < rounds) (rest : List Char) :
    literalFor rounds read (w ++ '\'' :: rest) = some (read.reverse ++ cs, rest) := by
  induction h generalizing rounds read with
  | nil =>
    obtain ⟨rounds, rfl⟩ := Nat.exists_eq_add_one.mpr (Nat.zero_lt_of_lt hrounds)
    rw [List.append_nil]
    rfl
  | @plain c w cs hprinting hquote hslash h ih =>
    obtain ⟨rounds, rfl⟩ := Nat.exists_eq_add_one.mpr (Nat.zero_lt_of_lt hrounds)
    have hlength : w.length < rounds := Nat.lt_of_succ_lt_succ hrounds
    rw [List.cons_append, literalFor_plain _ _ hprinting hquote, ih _ hlength]
    simp
  | escaped hescapes => cases hescapes
  | lineEnd hlines => cases hlines
  | quote hlines => cases hlines

theorem read_lines (h : Shown lines escapes q w cs) (hq : IsQuote q) (hrounds : w.length < rounds)
    (hrest : rest.head? ≠ some q) :
    linesFor escapes q rounds read (w ++ q :: q :: q :: rest) = some (read.reverse ++ cs, rest) := by
  induction h generalizing rounds read with
  | nil =>
    obtain ⟨rounds, rfl⟩ := Nat.exists_eq_add_one.mpr (Nat.zero_lt_of_lt hrounds)
    exact linesFor_close rounds read (Nat.zero_le 2) hrest
  | @plain c w cs hprinting hquote hslash h ih =>
    obtain ⟨rounds, rfl⟩ := Nat.exists_eq_add_one.mpr (Nat.zero_lt_of_lt hrounds)
    have hlength : w.length < rounds := Nat.lt_of_succ_lt_succ hrounds
    rw [List.cons_append, linesFor_plain _ _ hprinting hquote hslash, ih _ hlength]
    simp
  | @escaped e c w cs hescapes he h ih =>
    obtain ⟨rounds, rfl⟩ := Nat.exists_eq_add_one.mpr (Nat.zero_lt_of_lt hrounds)
    have hlength : w.length < rounds := by
      rw [List.length_cons, List.length_append] at hrounds
      omega
    subst hescapes
    rw [List.cons_append, List.append_assoc, linesFor_escaped _ _ hq.ne.1 he, ih _ hlength]
    simp
  | @lineEnd w cs hlines h ih =>
    obtain ⟨rounds, rfl⟩ := Nat.exists_eq_add_one.mpr (Nat.zero_lt_of_lt hrounds)
    have hlength : w.length < rounds := Nat.lt_of_succ_lt_succ hrounds
    rw [List.cons_append, linesFor_lineEnd _ _ hq.ne.2.1, ih _ hlength]
    simp
  | @quote w cs hlines hrun h ih =>
    obtain ⟨rounds, rfl⟩ := Nat.exists_eq_add_one.mpr (Nat.zero_lt_of_lt hrounds)
    have hlength : w.length < rounds := Nat.lt_of_succ_lt_succ hrounds
    by_cases hother : ∃ c ∈ w, c ≠ q
    · obtain ⟨c, hc, hne⟩ := hother
      have hrun' : lead q (q :: (w ++ q :: q :: q :: rest)) ≤ 2 := by
        rw [← List.cons_append, lead_append ⟨c, List.mem_cons_of_mem _ hc, hne⟩]
        exact hrun
      rw [List.cons_append, linesFor_quote _ _ hrun', ih _ hlength]
      simp
    -- Only quotes are left of the text, so they and the closing ones make one run.
    · have hall : ∀ c ∈ w, c = q := fun c hc => Decidable.byContradiction fun hne => hother ⟨c, hc, hne⟩
      have hw : q :: w = List.replicate (w.length + 1) q :=
        List.eq_replicate_of_mem (List.forall_mem_cons.mpr ⟨rfl, hall⟩)
      have hshort : w.length + 1 ≤ 2 := by
        have hlead := lead_replicate_append (q := q) (w.length + 1) []
        rw [List.append_nil, ← hw] at hlead
        omega
      rw [h.eq_of_forall hq hall, hw]
      exact linesFor_close rounds read hshort hrest

end Shown

/-! ## Writing -/

def shortEscapes : List Char :=
  ['b', 't', 'n', 'f', 'r', '"', '\\']

theorem isEscape_of_short {d : Char} (hd : d ∈ shortEscapes) (hc : shortEscape? d = some c) : IsEscape [d] c := by
  intro rest
  have hread : escape (d :: rest) = (shortEscape? d).map (fun c => (c, rest)) ∧ skipFold (d :: rest) = none := by
    simp only [shortEscapes, List.mem_cons, List.not_mem_nil, or_false] at hd
    rcases hd with rfl | rfl | rfl | rfl | rfl | rfl | rfl <;> exact ⟨rfl, rfl⟩
  refine ⟨?_, hread.2⟩
  rw [List.singleton_append, hread.1, hc]
  rfl

theorem hexDigit?_toUpper_digit : ∀ n < 16, Json.hexDigit? (Hex.digit n).toUpper = some n := by decide

theorem isEscape_codeOf (h : c.toNat < 256) : IsEscape (codeOf c).tail c := by
  have hhigh := hexDigit?_toUpper_digit (c.toNat / 16) (by omega)
  have hlow := hexDigit?_toUpper_digit (c.toNat % 16) (by omega)
  have hzero : Json.hexDigit? '0' = some 0 := by decide
  have hvalue : Radix.value 16 [0, 0, c.toNat / 16, c.toNat % 16] = c.toNat := by
    show ((0 * 16 + 0) * 16 + c.toNat / 16) * 16 + c.toNat % 16 = c.toNat
    omega
  have hchar : charOf? c.toNat = some c := by
    rw [charOf?, if_pos (.inl (by omega)), Char.ofNat_toNat]
  intro rest
  refine ⟨?_, rfl⟩
  simp only [codeOf, List.tail_cons, List.cons_append, List.nil_append, escape, hexCode]
  simp [hzero, hhigh, hlow, hvalue, hchar]

/-- How a character that is no quote is shown between double quotes. -/
def shownAs (lines : Bool) (c : Char) : List Char :=
  if c.toNat = 8 then ['\\', 'b']
  else if c.toNat = 9 then ['\\', 't']
  else if c.toNat = 10 then if lines then [c] else ['\\', 'n']
  else if c.toNat = 12 then ['\\', 'f']
  else if c.toNat = 13 then ['\\', 'r']
  else if c = '\\' then ['\\', '\\']
  else if needsCode c then codeOf c
  else [c]

theorem shortEscape?_of_toNat {d : Char} {n : Nat} (hd : shortEscape? d = some (Char.ofNat n)) (hc : c.toNat = n) :
    shortEscape? d = some c := by
  rw [hd, ← hc, Char.ofNat_toNat]

theorem isPrinting_of_not_needsCode (h : needsCode c = false) (hc : c ≠ '\n') : isPrinting c = true := by
  by_cases htab : c = '\t'
  · simp [isPrinting, htab]
  · simp only [needsCode, ne_eq, htab, hc, not_false_eq_true, decide_true, Bool.true_and, Bool.or_eq_false_iff,
      decide_eq_false_iff_not, Nat.not_lt] at h
    simp [isPrinting, h]

/-- A character is shown as an escape, as itself, or as the line end that it is. -/
theorem shownAs_cases (lines : Bool) (c : Char) :
    (∃ e, shownAs lines c = '\\' :: e ∧ IsEscape e c) ∨
      shownAs lines c = [c] ∧ isPrinting c = true ∧ c ≠ '\\' ∨
      shownAs lines c = ['\n'] ∧ c = '\n' ∧ lines = true := by
  have hshort : ∀ {d : Char} {n : Nat}, d ∈ shortEscapes → shortEscape? d = some (Char.ofNat n) → c.toNat = n →
      ∃ e, ['\\', d] = '\\' :: e ∧ IsEscape e c :=
    fun hd hn hc => ⟨[_], rfl, isEscape_of_short hd (shortEscape?_of_toNat hn hc)⟩
  unfold shownAs
  split
  · exact .inl (hshort (by decide) rfl ‹_›)
  split
  · exact .inl (hshort (by decide) rfl ‹_›)
  split
  · rename_i hfeed
    cases lines with
    | false => exact .inl (hshort (by decide) rfl hfeed)
    | true =>
      obtain rfl : c = '\n' := Char.toNat_inj.mp hfeed
      exact .inr (.inr ⟨rfl, rfl, rfl⟩)
  split
  · exact .inl (hshort (by decide) rfl ‹_›)
  split
  · exact .inl (hshort (by decide) rfl ‹_›)
  split
  · rename_i hslash
    exact .inl (hshort (by decide) rfl (congrArg Char.toNat hslash))
  split
  · rename_i hcode
    have hcontrol : c.toNat < 32 ∨ c.toNat = 127 := by
      simpa using (Bool.and_eq_true_iff.mp hcode).2
    exact .inl ⟨(codeOf c).tail, rfl, isEscape_codeOf (by omega)⟩
  · rename_i hfeed _ _ hslash hcode
    have hline : c ≠ '\n' := fun h => hfeed (congrArg Char.toNat h)
    exact .inr (.inl ⟨rfl, isPrinting_of_not_needsCode (Bool.eq_false_iff.mpr hcode) hline, hslash⟩)

variable {free quotes : Nat}

theorem escapeAll_of_ne (hc : c ≠ '"') :
    escapeAll lines free quotes (c :: cs) = shownAs lines c ++ escapeAll lines free 0 cs := by
  rw [escapeAll, if_neg hc]
  rfl

theorem escapeAll_of_lt (h : quotes < free) :
    escapeAll lines free quotes ('"' :: cs) = '"' :: escapeAll lines free (quotes + 1) cs := by
  rw [escapeAll, if_pos rfl, if_pos h]

theorem escapeAll_of_not_lt (h : ¬ quotes < free) :
    escapeAll lines free quotes ('"' :: cs) = '\\' :: '"' :: escapeAll lines free 0 cs := by
  rw [escapeAll, if_pos rfl, if_neg h]

theorem lead_shownAs (hc : c ≠ '"') (w : List Char) : lead '"' (shownAs lines c ++ w) = 0 := by
  rcases shownAs_cases lines c with ⟨e, hshown, -⟩ | ⟨hshown, -, -⟩ | ⟨hshown, -, -⟩
  · rw [hshown, List.cons_append, lead_cons_of_ne (by decide)]
  · rw [hshown, List.singleton_append, lead_cons_of_ne hc]
  · rw [hshown, List.singleton_append, lead_cons_of_ne (by decide)]

theorem lead_escapeAll (lines : Bool) (free quotes : Nat) (cs : List Char) :
    lead '"' (escapeAll lines free quotes cs) ≤ free - quotes := by
  induction cs generalizing quotes with
  | nil => exact Nat.zero_le _
  | cons c cs ih =>
    by_cases hc : c = '"'
    · subst hc
      by_cases hfree : quotes < free
      · have hrest := ih (quotes + 1)
        rw [escapeAll_of_lt hfree, lead_cons_self]
        omega
      · rw [escapeAll_of_not_lt hfree, lead_cons_of_ne (by decide)]
        exact Nat.zero_le _
    · rw [escapeAll_of_ne hc, lead_shownAs hc]
      exact Nat.zero_le _

namespace Shown

theorem escapeAll (hfree : free ≤ 2) (hline : lines = false → free = 0) (quotes : Nat) (cs : List Char) :
    Shown lines true '"' (escapeAll lines free quotes cs) cs := by
  induction cs generalizing quotes with
  | nil => exact .nil
  | cons c cs ih =>
    by_cases hc : c = '"'
    · subst hc
      by_cases hlt : quotes < free
      · have hlines : lines = true := by
          cases lines with
          | false => rw [hline rfl] at hlt; cases hlt
          | true => rfl
        have hrun := lead_escapeAll lines free quotes ('"' :: cs)
        rw [escapeAll_of_lt hlt] at hrun ⊢
        exact .quote hlines (by omega) (ih (quotes + 1))
      · rw [escapeAll_of_not_lt hlt]
        exact .escaped rfl (isEscape_of_short (by decide) rfl) (ih 0)
    · rw [escapeAll_of_ne hc]
      rcases shownAs_cases lines c with ⟨e, hshown, he⟩ | ⟨hshown, hprinting, hslash⟩ | ⟨hshown, rfl, hlines⟩
      · rw [hshown]
        exact .escaped rfl he (ih 0)
      · rw [hshown]
        exact .plain hprinting hc (fun _ => hslash) (ih 0)
      · rw [hshown]
        exact .lineEnd hlines (ih 0)

theorem literal (hcode : cs.any needsCode = false) (hline : '\n' ∈ cs → lines = true)
    (hrun : longestRun q cs ≤ if lines then 2 else 0) : Shown lines false q cs cs := by
  have hsuffix : ∀ w, w <:+ cs → Shown lines false q w w := by
    intro w
    induction w with
    | nil => exact fun _ => .nil
    | cons c w ih =>
      intro hw
      have hrest := ih ((List.suffix_cons c w).trans hw)
      have hmem : c ∈ cs := hw.subset List.mem_cons_self
      by_cases hfeed : c = '\n'
      · subst hfeed
        exact .lineEnd (hline hmem) hrest
      by_cases hquote : c = q
      · subst hquote
        have hlead := Nat.le_trans (lead_le_longestRun hw) hrun
        have hlines : lines = true := by
          cases lines with
          | false => rw [lead_cons_self] at hlead; cases hlead
          | true => rfl
        rw [hlines] at hlead
        exact .quote hlines hlead hrest
      · have hplain : needsCode c = false := by simpa using List.any_eq_false.mp hcode c hmem
        exact .plain (isPrinting_of_not_needsCode hplain hfeed) hquote (fun h => by cases h) hrest
  exact hsuffix cs (List.suffix_refl cs)

end Shown

/-! ## The forms of a text -/

/-- What follows a text is not taken for a further quote. -/
def Ends (rest : List Char) : Prop :=
  ∀ q, IsQuote q → rest.head? ≠ some q

theorem Shown.ne_opening (h : Shown false escapes q w cs) (hq : IsQuote q) (hrest : Ends rest) :
    ∀ t, w ++ q :: rest ≠ q :: q :: t := by
  intro t heq
  cases w with
  | nil =>
    have hhead := congrArg List.head? (List.cons.inj heq).2
    exact hrest q hq hhead
  | cons c w => exact h.head?_ne hq (congrArg some (List.cons.inj heq).1)

theorem quoted_basic (cs : List Char) (hrest : Ends rest) : quoted (basic cs ++ rest) = some (cs, rest) := by
  have hshown : Shown false true '"' (escapeAll false 0 0 cs) cs := .escapeAll (by decide) (fun _ => rfl) 0 cs
  have hlength : (escapeAll false 0 0 cs).length < (escapeAll false 0 0 cs ++ '"' :: rest).length + 1 := by
    rw [List.length_append]
    omega
  rw [basic, List.cons_append, List.append_assoc, List.singleton_append, quoted, hshown.read_basic _ hlength]
  · rfl
  · exact hshown.ne_opening (.inl rfl) hrest

theorem quoted_literal (hcode : cs.any needsCode = false) (hline : '\n' ∉ cs) (hrun : longestRun '\'' cs = 0)
    (hrest : Ends rest) : quoted (literal cs ++ rest) = some (cs, rest) := by
  have hshown : Shown false false '\'' cs cs :=
    .literal hcode (fun h => absurd h hline) (Nat.le_of_eq hrun)
  have hlength : cs.length < (cs ++ '\'' :: rest).length + 1 := by
    rw [List.length_append]
    omega
  rw [literal, List.cons_append, List.append_assoc, List.singleton_append, quoted, hshown.read_literal _ hlength]
  · rfl
  · exact hshown.ne_opening (.inr rfl) hrest

theorem dropOpening_opening (h : Shown true escapes q w cs) (hq : IsQuote q) (rest : List Char) :
    dropOpening (opening cs ++ (w ++ q :: rest)) = w ++ q :: rest := by
  by_cases hline : '\n' ∈ cs
  · have hopening : opening cs = ['\n'] := if_pos (List.contains_iff_mem.mpr hline)
    rw [hopening]
    rfl
  · have hopening : opening cs = [] := if_neg fun hcontains => hline (List.contains_iff_mem.mp hcontains)
    rw [hopening, List.nil_append, dropOpening, h.lineEnd?_eq_none hq hline]
    rfl

theorem read_lines_opening (h : Shown true escapes q w cs) (hq : IsQuote q) (hrest : Ends rest) :
    linesFor escapes q ((opening cs ++ (w ++ q :: q :: q :: rest)).length + 1) []
      (dropOpening (opening cs ++ (w ++ q :: q :: q :: rest))) = some (cs, rest) := by
  have hlength : w.length < (opening cs ++ (w ++ q :: q :: q :: rest)).length + 1 := by
    rw [List.length_append, List.length_append]
    omega
  rw [dropOpening_opening h hq, h.read_lines [] hq hlength (hrest q hq)]
  rfl

theorem quoted_basicLines (cs : List Char) (hrest : Ends rest) : quoted (basicLines cs ++ rest) = some (cs, rest) := by
  have hshown : Shown true true '"' (escapeAll true 2 0 cs) cs := .escapeAll (Nat.le_refl 2) (fun h => by cases h) 0 cs
  have hread := read_lines_opening hshown (.inl rfl) hrest
  simpa [basicLines, quoted] using hread

theorem quoted_literalLines (hcode : cs.any needsCode = false) (hrun : longestRun '\'' cs ≤ 2) (hrest : Ends rest) :
    quoted (literalLines cs ++ rest) = some (cs, rest) := by
  have hshown : Shown true false '\'' cs cs := .literal hcode (fun _ => rfl) hrun
  have hread := read_lines_opening hshown (.inr rfl) hrest
  simpa [literalLines, quoted] using hread

/-- Whatever form a text is written in, it is read back. -/
theorem quoted_quote (s : String) (hrest : Ends rest) : quoted (quote s ++ rest) = some (s.toList, rest) := by
  simp only [quote]
  split
  · exact quoted_basic s.toList hrest
  split
  · rename_i hliteral
    simp only [Bool.and_eq_true, Bool.not_eq_true', beq_iff_eq, List.contains_eq_mem, decide_eq_false_iff_not] at hliteral
    exact quoted_literal hliteral.1.1 hliteral.2 hliteral.1.2 hrest
  split
  · exact quoted_basicLines s.toList hrest
  split
  · rename_i hliteral
    simp only [Bool.and_eq_true, Bool.not_eq_true', decide_eq_true_eq] at hliteral
    exact quoted_literalLines hliteral.1 hliteral.2 hrest
  split
  · exact quoted_basicLines s.toList hrest
  · exact quoted_basic s.toList hrest

end ContractHost.Toml
