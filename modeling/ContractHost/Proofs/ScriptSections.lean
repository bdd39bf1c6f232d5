import ContractHost.Script.Source
/-!
# Sections of a script

A source can be parsed in two phases: its lines are cleaned, and the clean lines are split at the headers, into some lines
before the first header and then sections, each with a header and the lines up to the next one. There is one way to split
them. The single pass of the VM, which stops at the header after the section it looks for, finds the body of the first
section whose header has the name.
-/
namespace ContractHost

namespace Text

variable {separates : Char → Bool}

theorem split_ne_nil (cs : List Char) : split separates cs ≠ [] := by
  cases cs with
  | nil => exact List.cons_ne_nil _ _
  | cons c cs =>
    rw [split]
    split
    · exact List.cons_ne_nil _ _
    · split <;> exact List.cons_ne_nil _ _

theorem split_cons_of_separates {c : Char} (hc : separates c = true) (cs : List Char) :
    split separates (c :: cs) = [] :: split separates cs := by
  obtain ⟨piece, rest, hsplit⟩ : ∃ piece rest, split separates cs = piece :: rest :=
    List.exists_cons_of_ne_nil (split_ne_nil cs)
  rw [split, hsplit]
  exact if_pos hc

theorem split_append {c : Char} (hc : separates c = true) (cs cs' : List Char) :
    split separates (cs ++ c :: cs') = split separates cs ++ split separates cs' := by
  induction cs with
  | nil => exact split_cons_of_separates hc cs'
  | cons d cs ih =>
    obtain ⟨piece, rest, hsplit⟩ : ∃ piece rest, split separates cs = piece :: rest :=
      List.exists_cons_of_ne_nil (split_ne_nil cs)
    rw [List.cons_append, split, ih, split, hsplit]
    dsimp only [List.cons_append]
    split <;> rfl

end Text

namespace Script

variable {name : List Char} {ls : List (List Char)}

/-! ## Plain parsing -/

def cleanLines (source : List Char) : List (List Char) :=
  ((Text.lines source).map clean).filter fun line => !line.isEmpty

/-- The body of the first section with a name among clean lines. -/
def body? (name : List Char) : List (List Char) → Option (List (List Char))
  | [] => none
  | line :: rest =>
    if header? line = some name then some (rest.takeWhile fun line => (header? line).isNone) else body? name rest

/-- The body of the first section with a name. -/
def function? (source name : List Char) : Option (List (List Char)) :=
  body? name (cleanLines source)

theorem cleanLines_append (source source' : List Char) :
    cleanLines (source ++ '\n' :: source') = cleanLines source ++ cleanLines source' := by
  rw [cleanLines, Text.lines, Text.split_append rfl, List.map_append, List.filter_append]
  rfl

/-! ## Splitting at headers -/

/-- A section of a script: a header and the lines up to the next one. -/
structure Section where
  header : List Char
  body : List (List Char)

namespace Section

def lines (s : Section) : List (List Char) :=
  s.header :: s.body

/-- The first line of a section is its only header. -/
structure Proper (s : Section) : Prop where
  header : header? s.header ≠ none
  body : ∀ line ∈ s.body, header? line = none

end Section

def sections : List (List Char) → List (List Char) × List Section
  | [] => ([], [])
  | line :: rest =>
    let (before, sections) := sections rest
    if header? line = none then (line :: before, sections) else ([], ⟨line, before⟩ :: sections)

theorem sections_cons_of_none {line : List Char} (h : header? line = none) :
    sections (line :: ls) = (line :: (sections ls).1, (sections ls).2) := by
  rw [sections]
  exact if_pos h

theorem sections_cons_of_ne_none {line : List Char} (h : header? line ≠ none) :
    sections (line :: ls) = ([], ⟨line, (sections ls).1⟩ :: (sections ls).2) := by
  rw [sections]
  exact if_neg h

theorem sections_append {before : List (List Char)} (h : ∀ line ∈ before, header? line = none) :
    sections (before ++ ls) = (before ++ (sections ls).1, (sections ls).2) := by
  induction before with
  | nil => rfl
  | cons line before ih =>
    obtain ⟨hline, hbefore⟩ := List.forall_mem_cons.mp h
    rw [List.cons_append, sections_cons_of_none hline, ih hbefore]
    rfl

theorem sections_flatMap {ss : List Section} (h : ∀ s ∈ ss, s.Proper) :
    sections (ss.flatMap Section.lines) = ([], ss) := by
  induction ss with
  | nil => rfl
  | cons s ss ih =>
    obtain ⟨hs, hss⟩ := List.forall_mem_cons.mp h
    rw [List.flatMap_cons, Section.lines, List.cons_append, sections_cons_of_ne_none hs.header, sections_append hs.body,
      ih hss, List.append_nil]

theorem sections_flatten (ls : List (List Char)) :
    ls = (sections ls).1 ++ (sections ls).2.flatMap Section.lines ∧
      (∀ line ∈ (sections ls).1, header? line = none) ∧ ∀ s ∈ (sections ls).2, s.Proper := by
  induction ls with
  | nil => exact ⟨rfl, nofun, nofun⟩
  | cons line ls ih =>
    obtain ⟨hflatten, hbefore, hproper⟩ := ih
    by_cases hline : header? line = none
    · rw [sections_cons_of_none hline]
      exact ⟨congrArg (line :: ·) hflatten, List.forall_mem_cons.mpr ⟨hline, hbefore⟩, hproper⟩
    · rw [sections_cons_of_ne_none hline]
      exact ⟨congrArg (line :: ·) hflatten, nofun, List.forall_mem_cons.mpr ⟨⟨hline, hbefore⟩, hproper⟩⟩

/-- There is one way to split lines at their headers. -/
theorem sections_eq_iff {before : List (List Char)} {ss : List Section} :
    sections ls = (before, ss) ↔
      ls = before ++ ss.flatMap Section.lines ∧ (∀ line ∈ before, header? line = none) ∧ ∀ s ∈ ss, s.Proper := by
  constructor
  · intro h
    have hflatten := sections_flatten ls
    rw [h] at hflatten
    exact hflatten
  · rintro ⟨rfl, hbefore, hproper⟩
    rw [sections_append hbefore, sections_flatMap hproper, List.append_nil]

/-! ## Looking up a section -/

theorem takeWhile_eq_sections (ls : List (List Char)) :
    (ls.takeWhile fun line => (header? line).isNone) = (sections ls).1 := by
  induction ls with
  | nil => rfl
  | cons line ls ih =>
    by_cases hline : header? line = none
    · rw [sections_cons_of_none hline, List.takeWhile_cons_of_pos (by simp [hline]), ih]
    · rw [sections_cons_of_ne_none hline, List.takeWhile_cons_of_neg (by simpa using hline)]

/-- The body under a name is that of the first section with the name. -/
theorem body?_eq_find? (name : List Char) (ls : List (List Char)) :
    body? name ls = ((sections ls).2.find? fun s => header? s.header = some name).map Section.body := by
  induction ls with
  | nil => rfl
  | cons line ls ih =>
    rw [body?, takeWhile_eq_sections, ih]
    by_cases hline : header? line = none
    · rw [sections_cons_of_none hline, if_neg (by simp [hline])]
    · rw [sections_cons_of_ne_none hline]
      by_cases hname : header? line = some name
      · rw [if_pos hname, List.find?_cons_of_pos (by simpa using hname), Option.map_some]
      · rw [if_neg hname, List.find?_cons_of_neg (by simpa using hname)]

theorem body?_append {before : List (List Char)} (h : ∀ line ∈ before, header? line ≠ some name) :
    body? name (before ++ ls) = body? name ls := by
  induction before with
  | nil => rfl
  | cons line before ih =>
    obtain ⟨hline, hbefore⟩ := List.forall_mem_cons.mp h
    rw [List.cons_append, body?, if_neg hline, ih hbefore]

theorem body?_section {s : Section} (hs : s.Proper) (hname : header? s.header = some name)
    (hafter : ∀ line ∈ ls.head?, header? line ≠ none) : body? name (s.lines ++ ls) = some s.body := by
  have hbody : ∀ line ∈ s.body, (header? line).isNone = true := by
    intro line hline
    rw [hs.body line hline]
    rfl
  have hend : (ls.takeWhile fun line => (header? line).isNone) = [] := by
    cases ls with
    | nil => rfl
    | cons line ls => exact List.takeWhile_cons_of_neg (by simpa using hafter line rfl)
  rw [Section.lines, List.cons_append, body?, if_pos hname, List.takeWhile_append_of_pos hbody, hend, List.append_nil]

/-! ## A single pass -/

namespace Pass

variable {p : Pass} {line : List Char} {body : List (List Char)}

theorem step_of_isEmpty (h : (clean line).isEmpty = true) : step name p line = p :=
  if_pos h

theorem step_of_header {found : List Char} (hempty : ¬ (clean line).isEmpty = true)
    (h : header? (clean line) = some found) (body : List (List Char)) :
    step name .seeking line = (if found = name then .reading [] else .seeking) ∧
      step name (.reading body) line = .done body := by
  simp only [step, if_neg hempty, h, and_self]

theorem step_of_none (hempty : ¬ (clean line).isEmpty = true) (h : header? (clean line) = none)
    (body : List (List Char)) :
    step name .seeking line = .seeking ∧ step name (.reading body) line = .reading (clean line :: body) := by
  simp only [step, if_neg hempty, h, and_self]

theorem step_done : step name (.done body) line = .done body := by
  simp only [step]
  split
  · rfl
  · cases header? (clean line) <;> rfl

theorem foldl_done : ls.foldl (step name) (.done body) = .done body := by
  induction ls with
  | nil => rfl
  | cons line ls ih => rw [List.foldl_cons, step_done, ih]

abbrev said (ls : List (List Char)) : List (List Char) :=
  (ls.map clean).filter fun line => !line.isEmpty

theorem said_cons_of_isEmpty (h : (clean line).isEmpty = true) : said (line :: ls) = said ls := by
  simp [said, h]

theorem said_cons (h : ¬ (clean line).isEmpty = true) : said (line :: ls) = clean line :: said ls := by
  simp [said, h]

theorem body?_foldl_reading (ls body : List (List Char)) : (ls.foldl (step name) (.reading body)).body? =
    some (body.reverse ++ (said ls).takeWhile fun line => (header? line).isNone) := by
  induction ls generalizing body with
  | nil => exact congrArg some (List.append_nil _).symm
  | cons line ls ih =>
    rw [List.foldl_cons]
    by_cases hempty : (clean line).isEmpty = true
    · rw [step_of_isEmpty hempty, said_cons_of_isEmpty hempty, ih]
    rw [said_cons hempty]
    cases hheader : header? (clean line) with
    | none =>
      rw [(step_of_none hempty hheader body).2, ih, List.takeWhile_cons_of_pos (by simp [hheader]), List.reverse_cons,
        List.append_assoc]
      rfl
    | some found =>
      rw [(step_of_header hempty hheader body).2, foldl_done, List.takeWhile_cons_of_neg (by simp [hheader]), List.append_nil]
      rfl

theorem body?_foldl_seeking (ls : List (List Char)) :
    (ls.foldl (step name) .seeking).body? = Script.body? name (said ls) := by
  induction ls with
  | nil => rfl
  | cons line ls ih =>
    rw [List.foldl_cons]
    by_cases hempty : (clean line).isEmpty = true
    · rw [step_of_isEmpty hempty, said_cons_of_isEmpty hempty, ih]
    rw [said_cons hempty, Script.body?]
    cases hheader : header? (clean line) with
    | none => rw [(step_of_none hempty hheader []).1, ih, if_neg (Option.some_ne_none name).symm]
    | some found =>
      rw [(step_of_header hempty hheader []).1]
      by_cases hname : found = name
      · rw [if_pos hname, if_pos (congrArg some hname), body?_foldl_reading]
        rfl
      · rw [if_neg hname, if_neg (fun h => hname (Option.some.inj h)), ih]

end Pass

theorem lookUp_eq_function? (source name : List Char) : lookUp source name = function? source name :=
  Pass.body?_foldl_seeking (Text.lines source)

/-- What is looked up under a name, also in a single pass, is the body of the first section with the name, once all lines
are clean and split into sections. Neither the text before this section nor what comes from the next header on makes a
difference. -/
theorem lookUp_firstSection :
    (∀ source name,
      let (before, ss) := sections (cleanLines source)
      lookUp source name = function? source name ∧
      function? source name = (ss.find? fun s => header? s.header = some name).map Section.body ∧
      cleanLines source = before ++ ss.flatMap Section.lines ∧ (∀ line ∈ before, header? line = none) ∧
      ∀ s ∈ ss, s.Proper) ∧
    ∀ (before text after name : List Char) (s : Section), cleanLines text = s.lines → s.Proper →
      header? s.header = some name → (∀ line ∈ cleanLines before, header? line ≠ some name) →
      (∀ line ∈ (cleanLines after).head?, header? line ≠ none) →
      function? (before ++ '\n' :: (text ++ '\n' :: after)) name = some s.body := by
  constructor
  · intro source name
    exact ⟨lookUp_eq_function? source name, body?_eq_find? name (cleanLines source), sections_flatten (cleanLines source)⟩
  · intro before text after name s htext hs hname hbefore hafter
    rw [function?, cleanLines_append, cleanLines_append, htext, body?_append hbefore, body?_section hs hname hafter]

/-- A section with comments and an empty line, between a bare `fn` with a section of another name and a second section of
the same name. -/
theorem repeated_firstSection :
    let before := "fn\n ret\nfn runs # fn run\n fail".toList
    let text := "\t fn  run # first\n\n return ok # run".toList
    let after := " # second\nfn run\n fail".toList
    function? (before ++ '\n' :: (text ++ '\n' :: after)) "run".toList = some ["return ok".toList] := by
  intro before text after
  exact lookUp_firstSection.2 before text after "run".toList ⟨"fn  run".toList, ["return ok".toList]⟩
    (by decide +kernel) ⟨by decide +kernel, by decide +kernel⟩ (by decide +kernel) (by decide +kernel) (by decide +kernel)

end Script

end ContractHost
