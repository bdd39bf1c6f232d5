import ContractHost.Proofs.TomlValues
/-!
# TOML documents that were written

A document with values first and tables behind them is read back if all names are bare and none stands twice in a table.
The lines of the document are found one by one, whatever stands behind them, and each says what was written there
(`Says`); from the lines the tables are put together again.
-/
namespace ContractHost.Toml

variable {c : Char} {cs rest : List Char} {j : Json} {shown : List Char}

/-! ## Keys -/

/-- A name that stands in a document without quotes. -/
structure Bare (name : String) : Prop where
  ne_nil : name.toList ≠ []
  isBare : ∀ c ∈ name.toList, isBare c = true

theorem isBare_ne (h : isBare c = true) : c ≠ ' ' ∧ c ≠ '\t' ∧ c ≠ '"' ∧ c ≠ '\'' ∧ c ≠ '#' ∧ c ≠ '\n' ∧ c ≠ '\r' ∧
    c ≠ '[' ∧ c ≠ '\ufeff' := by
  refine ⟨?_, ?_, ?_, ?_, ?_, ?_, ?_, ?_, ?_⟩ <;> rintro rfl <;> exact absurd h (by decide)

instance (name : String) : Decidable (Bare name) :=
  decidable_of_iff (name.toList ≠ [] ∧ name.toList.all Toml.isBare = true)
    ⟨fun h => ⟨h.1, List.all_eq_true.mp h.2⟩, fun h => ⟨h.ne_nil, List.all_eq_true.mpr h.isBare⟩⟩

variable {name : String}

namespace Bare

theorem exists_cons (h : Bare name) : ∃ c cs, name.toList = c :: cs ∧ Toml.isBare c = true := by
  obtain ⟨c, cs, hname⟩ := List.exists_cons_of_ne_nil h.ne_nil
  exact ⟨c, cs, hname, h.isBare c (hname ▸ List.mem_cons_self)⟩

theorem skipBlanks_append (h : Bare name) (rest : List Char) :
    skipBlanks (name.toList ++ rest) = name.toList ++ rest := by
  obtain ⟨c, cs, hname, hc⟩ := h.exists_cons
  obtain ⟨hspace, htab, -⟩ := isBare_ne hc
  rw [hname]
  exact List.dropWhile_cons_of_neg (by simp [hspace, htab])

theorem keyPart_append (h : Bare name) (hrest : ∀ c ∈ rest.head?, Toml.isBare c = false) :
    keyPart (name.toList ++ rest) = some (name, rest) := by
  obtain ⟨htake, hdrop⟩ := takeWhile_append_of_head? h.isBare hrest
  obtain ⟨c, cs, hname, hc⟩ := h.exists_cons
  obtain ⟨-, -, hdouble, hsingle, -⟩ := isBare_ne hc
  have hne : ¬ name.toList.isEmpty = true := by simpa using h.ne_nil
  have hquote : ∀ q, c ≠ q → ∀ t, name.toList ++ rest = q :: t → False := by
    intro q hq t heq
    rw [hname] at heq
    exact hq (List.cons.inj heq).1
  rw [keyPart]
  · simp only [htake, hdrop, if_neg hne, String.ofList_toList]
  · exact hquote '"' hdouble
  · exact hquote '\'' hsingle

theorem key_append (h : Bare name) (hrest : ∀ c ∈ rest.head?, Toml.isBare c = false) {d : Char} {more : List Char}
    (hskip : skipBlanks rest = d :: more) (hdot : d ≠ '.') :
    key (name.toList ++ rest) = some ([name], d :: more) := by
  show keyFor (78 + 1) _ = _
  rw [keyFor, h.skipBlanks_append, h.keyPart_append hrest]
  simp only [Option.bind_eq_bind, Option.bind_some, hskip]
  split
  · exact absurd (List.cons.inj ‹_›).1 hdot
  · rfl

end Bare

/-! ## Lines -/

theorem Bare.pair_append (h : Bare name) (hj : scalar? j = some shown) (rest : List Char) :
    pair (value maxDepth) (name.toList ++ ' ' :: '=' :: ' ' :: (shown ++ '\n' :: rest)) =
      some (([name], j), '\n' :: rest) := by
  have hkey : key (name.toList ++ ' ' :: '=' :: ' ' :: (shown ++ '\n' :: rest)) =
      some ([name], '=' :: ' ' :: (shown ++ '\n' :: rest)) := by
    apply h.key_append _ rfl (by decide)
    rintro c ⟨⟩
    decide
  have hvalue : value maxDepth (skipBlanks (' ' :: (shown ++ '\n' :: rest))) = some (j, '\n' :: rest) :=
    value_scalar? hj 78 rest
  rw [pair, hkey]
  show (value maxDepth (skipBlanks (' ' :: (shown ++ '\n' :: rest))) >>= _) = _
  rw [hvalue]
  rfl

theorem Bare.line_pair (h : Bare name) (hj : scalar? j = some shown) (rest : List Char) :
    line (name.toList ++ ' ' :: '=' :: ' ' :: (shown ++ '\n' :: rest)) = some (.pair [name] j, '\n' :: rest) := by
  have hpair := h.pair_append hj rest
  have hskip := h.skipBlanks_append (' ' :: '=' :: ' ' :: (shown ++ '\n' :: rest))
  obtain ⟨c, cs, hname, hc⟩ := h.exists_cons
  obtain ⟨-, -, -, -, hcomment, hfeed, hreturn, hbracket, -⟩ := isBare_ne hc
  rw [hname, List.cons_append] at hpair hskip ⊢
  rw [line, hskip]
  -- The name begins with no character that other lines begin with.
  split
  · cases ‹c :: _ = []›
  · exact absurd (List.cons.inj ‹_›).1 hcomment
  · exact absurd (List.cons.inj ‹_›).1 hfeed
  · exact absurd (List.cons.inj ‹_›).1 hreturn
  · exact absurd (List.cons.inj ‹_›).1 hbracket
  · exact absurd (List.cons.inj ‹_›).1 hbracket
  · rw [hpair]
    rfl

theorem Bare.line_header (h : Bare name) (rest : List Char) :
    line ('[' :: (name.toList ++ ']' :: '\n' :: rest)) = some (.header [name], '\n' :: rest) := by
  have hkey : key (name.toList ++ ']' :: '\n' :: rest) = some ([name], ']' :: '\n' :: rest) := by
    apply h.key_append _ rfl (by decide)
    rintro c ⟨⟩
    decide
  obtain ⟨c, cs, hname, hc⟩ := h.exists_cons
  obtain ⟨-, -, -, -, -, -, -, hbracket, -⟩ := isBare_ne hc
  rw [hname, List.cons_append] at hkey ⊢
  have hskip : skipBlanks ('[' :: c :: (cs ++ ']' :: '\n' :: rest)) = '[' :: c :: (cs ++ ']' :: '\n' :: rest) := rfl
  rw [line, hskip]
  split
  · cases ‹ '[' :: _ = [] ›
  · cases ‹ '[' :: _ = '#' :: _ ›
  · cases ‹ '[' :: _ = '\n' :: _ ›
  · cases ‹ '[' :: _ = '\r' :: _ ›
  · exact absurd (List.cons.inj (List.cons.inj ‹_›).2).1 hbracket
  · obtain rfl := (List.cons.inj ‹_›).2
    rw [hkey]
    rfl
  · exact absurd rfl (‹∀ rest, '[' :: _ = '[' :: rest → False› _)

theorem line_blank (rest : List Char) : line ('\n' :: rest) = some (.blank, '\n' :: rest) :=
  rfl

/-- In a text these lines are found, whatever stands behind it. -/
structure Says (cs : List Char) (ls : List Line) : Prop where
  -- No line is without a character, so as many rounds as there are characters are enough.
  length_le : ls.length ≤ cs.length
  linesOf_append : ∀ rounds rest, linesOf (ls.length + rounds) (cs ++ rest) = (linesOf rounds rest).map (ls ++ ·)

namespace Says

variable {ls ls' : List Line} {cs' : List Char}

theorem nil : Says [] [] := by
  refine ⟨Nat.le_refl 0, ?_⟩
  intro rounds rest
  rw [List.length_nil, Nat.zero_add, List.nil_append]
  exact Option.map_id'.symm

theorem append (h : Says cs ls) (h' : Says cs' ls') : Says (cs ++ cs') (ls ++ ls') := by
  constructor
  · have hle := h.length_le
    have hle' := h'.length_le
    rw [List.length_append, List.length_append]
    omega
  · intro rounds rest
    rw [List.length_append, Nat.add_assoc, List.append_assoc, h.linesOf_append, h'.linesOf_append, Option.map_map]
    congr 1
    funext more
    exact (List.append_assoc ls ls' more).symm

theorem ofLine {l : Line} (hne : cs ≠ []) (h : ∀ rest, line (cs ++ rest) = some (l, '\n' :: rest)) : Says cs [l] := by
  constructor
  · exact List.length_pos_iff.mpr hne
  · intro rounds rest
    rw [List.length_singleton, Nat.add_comm, linesOf, h rest]
    show (linesOf rounds rest >>= fun ls => pure (l :: ls)) = _
    cases linesOf rounds rest <;> rfl

theorem flatten {α : Type} {write : α → Option (List Char)} {means : α → List Line} {xs : List α} {css : List (List Char)}
    (hx : ∀ x ∈ xs, ∀ cs, write x = some cs → Says cs (means x)) (h : xs.mapM write = some css) :
    Says css.flatten (xs.flatMap means) := by
  induction xs generalizing css with
  | nil =>
    obtain rfl := Option.some.inj h
    exact nil
  | cons x xs ih =>
    obtain ⟨hfirst, hrest⟩ := List.forall_mem_cons.mp hx
    rw [List.mapM_cons] at h
    obtain ⟨cs, hcs, h⟩ := Option.bind_eq_some_iff.mp h
    obtain ⟨css, hcss, h⟩ := Option.bind_eq_some_iff.mp h
    obtain rfl := Option.some.inj h
    exact (hfirst cs hcs).append (ih hrest hcss)

end Says

/-! ## Tables -/

/-- The names of a table are bare, and none stands twice. -/
structure Named {α : Type} (ms : List (String × α)) : Prop where
  nodup : (ms.map Prod.fst).Nodup
  bare : ∀ m ∈ ms, Bare m.1

theorem Named.of_names {α : Type} {ms : List (String × α)} (names : List String) (hms : ms.map Prod.fst = names)
    (hnames : names.Nodup ∧ ∀ name ∈ names, Bare name) : Named ms := by
  subst hms
  exact ⟨hnames.1, List.forall_mem_map.mp hnames.2⟩

def pairLines (ms : List (String × Json)) : List Line :=
  ms.map fun m => .pair [m.1] m.2

theorem says_line? {m : String × Json} (hm : Bare m.1) (h : line? m = some cs) : Says cs [.pair [m.1] m.2] := by
  obtain ⟨shown, hshown, rfl⟩ := Option.map_eq_some_iff.mp h
  refine Says.ofLine (by simp) fun rest => ?_
  have hline := hm.line_pair hshown rest
  simpa using hline

theorem says_pairLines {ms : List (String × Json)} (hbare : ∀ m ∈ ms, Bare m.1)
    {write : String × Json → Option (List Char)} (hwrite : ∀ m ∈ ms, write m = line? m) {shown : List (List Char)}
    (h : ms.mapM write = some shown) : Says shown.flatten (pairLines ms) := by
  rw [pairLines, List.map_eq_flatMap]
  refine Says.flatten (fun m hm cs hcs => says_line? (hbare m hm) ?_) h
  rwa [← hwrite m hm]

abbrev Table : Type :=
  String × List (String × Json)

def Table.member (t : Table) : String × Json :=
  (t.1, .object t.2)

/-- The lines of a table: an empty one, its header and its values. -/
def Table.lines (t : Table) : List Line :=
  .blank :: .header [t.1] :: pairLines t.2

theorem says_table {t : Table} (ht : Bare t.1) (hnamed : Named t.2) (h : member? t.member = some cs) :
    Says cs t.lines := by
  obtain ⟨shown, hshown, h⟩ := Option.bind_eq_some_iff.mp h
  obtain rfl := Option.some.inj h
  have hblank : Says ['\n'] [.blank] := Says.ofLine (List.cons_ne_nil _ _) line_blank
  have hheader : Says ('[' :: (t.1.toList ++ [']', '\n'])) [.header [t.1]] := by
    refine Says.ofLine (List.cons_ne_nil _ _) fun rest => ?_
    have hline := ht.line_header rest
    simpa using hline
  have hpairs := says_pairLines hnamed.bare (fun _ _ => rfl) hshown
  have hlines := hblank.append (hheader.append hpairs)
  simpa [Table.lines] using hlines

/-! ## Documents -/

/-- What can be written as a document: values first, then tables, all under good names. -/
structure Orderly (values : List (String × Json)) (tables : List Table) : Prop where
  names : Named (values ++ tables.map Table.member)
  inner : ∀ t ∈ tables, Named t.2
  /-- A value is no table. -/
  flat : ∀ m ∈ values, ∀ ms, m.2 ≠ .object ms

theorem member?_of_flat {m : String × Json} (h : ∀ ms, m.2 ≠ .object ms) : member? m = line? m := by
  obtain ⟨name, j⟩ := m
  cases j with
  | object ms => exact absurd rfl (h ms)
  | _ => rfl

variable {values : List (String × Json)} {tables : List Table}

/-- The lines of a document, but for the empty one at its end. -/
def documentLines (values : List (String × Json)) (tables : List Table) : List Line :=
  pairLines values ++ tables.flatMap Table.lines

theorem says_document (h : Orderly values tables) {shown : List (List Char)}
    (hshown : (values ++ tables.map Table.member).mapM member? = some shown) :
    Says shown.flatten (documentLines values tables) := by
  rw [List.mapM_append] at hshown
  obtain ⟨shownValues, hvalues, hshown⟩ := Option.bind_eq_some_iff.mp hshown
  obtain ⟨shownTables, htables, hshown⟩ := Option.bind_eq_some_iff.mp hshown
  obtain rfl := Option.some.inj hshown
  have hbare : ∀ m ∈ values, Bare m.1 := fun m hm => h.names.bare m (List.mem_append_left _ hm)
  have hsaysValues : Says shownValues.flatten (pairLines values) :=
    says_pairLines hbare (fun m hm => member?_of_flat (h.flat m hm)) hvalues
  have hsaysTables : Says shownTables.flatten (tables.flatMap Table.lines) := by
    rw [List.mapM_map] at htables
    refine Says.flatten (fun t ht cs hcs => says_table ?_ (h.inner t ht) hcs) htables
    exact h.names.bare t.member (List.mem_append_right _ (List.mem_map_of_mem ht))
  rw [List.flatten_append]
  exact hsaysValues.append hsaysTables

theorem Says.linesOf_eq {ls : List Line} (h : Says cs ls) : linesOf (cs.length + 1) cs = some (ls ++ [.blank]) := by
  have hle := h.length_le
  obtain ⟨rounds, hrounds⟩ : ∃ rounds, cs.length + 1 = ls.length + (rounds + 1) := ⟨cs.length - ls.length, by omega⟩
  have hread := h.linesOf_append (rounds + 1) []
  rw [List.append_nil] at hread
  rw [hrounds, hread]
  rfl

theorem Says.head?_ne {ls : List Line} (h : Says cs ls) : cs.head? ≠ some '\ufeff' := by
  intro hmark
  obtain ⟨rest, rfl⟩ := List.head?_eq_some_iff.mp hmark
  have hread := h.linesOf_eq
  have hline : line ('\ufeff' :: rest) = none := rfl
  rw [linesOf, hline] at hread
  cases hread

/-! ## Putting tables together -/

variable {items : Items}

theorem find?_of_fresh (h : name ∉ items.map Prod.fst) : find? name items = none := by
  rw [find?, List.lookup_eq_none_iff]
  intro item hitem
  have hne : name ≠ item.1 := fun heq => h (heq ▸ List.mem_map_of_mem hitem)
  simpa using hne

theorem put_of_fresh (h : name ∉ items.map Prod.fst) (item : Item) : put name item items = items ++ [(name, item)] := by
  induction items with
  | nil => rfl
  | cons i items ih =>
    rw [List.map_cons, List.mem_cons, not_or] at h
    rw [put, if_neg (fun heq => h.1 heq.symm), ih h.2]
    rfl

theorem putValue_of_fresh (h : name ∉ items.map Prod.fst) (j : Json) :
    putValue items [name] j = some (items ++ [(name, .value j)]) := by
  simp [putValue, descend, find?_of_fresh h, put_of_fresh h]

def pairs (ms : List (String × Json)) : List (List String × Json) :=
  ms.map fun m => ([m.1], m.2)

def valueItems (ms : List (String × Json)) : Items :=
  ms.map fun m => (m.1, .value m.2)

theorem putValues_of_nodup {ms : List (String × Json)} (h : (items.map Prod.fst ++ ms.map Prod.fst).Nodup) :
    putValues items (pairs ms) = some (items ++ valueItems ms) := by
  induction ms generalizing items with
  | nil => exact congrArg some (List.append_nil items).symm
  | cons m ms ih =>
    have hfresh : m.1 ∉ items.map Prod.fst := by
      intro hmem
      exact (List.nodup_append.mp h).2.2 _ hmem _ List.mem_cons_self rfl
    have hrest : ((items ++ [(m.1, Item.value m.2)]).map Prod.fst ++ ms.map Prod.fst).Nodup := by
      simpa using h
    have hstep : putValues items (pairs (m :: ms)) =
        (putValue items [m.1] m.2 >>= fun items => putValues items (pairs ms)) := by
      rw [putValues, pairs, List.map_cons, List.foldlM_cons]
      rfl
    rw [hstep, putValue_of_fresh hfresh]
    show putValues (items ++ [(m.1, Item.value m.2)]) (pairs ms) = _
    rw [ih hrest, List.append_assoc]
    rfl

def Table.item (t : Table) : String × Item :=
  (t.1, .table false false (valueItems t.2))

theorem putTable_of_fresh {t : Table} (h : t.1 ∉ items.map Prod.fst) (ht : Named t.2) :
    putTable items [t.1] (pairs t.2) = some (items ++ [t.item]) := by
  have hown : putValues [] (pairs t.2) = some (valueItems t.2) := putValues_of_nodup ht.nodup
  simp [putTable, descend, find?_of_fresh h, hown, put_of_fresh h, Table.item]

theorem splitPairs_pairLines (ms : List (String × Json)) (ls : List Line) :
    splitPairs (pairLines ms ++ ls) = (pairs ms ++ (splitPairs ls).1, (splitPairs ls).2) := by
  induction ms with
  | nil => rfl
  | cons m ms ih =>
    show (([m.1], m.2) :: (splitPairs (pairLines ms ++ ls)).1, (splitPairs (pairLines ms ++ ls)).2) = _
    rw [ih]
    rfl

def headed : List Table → List Line
  | [] => []
  | t :: ts => .header [t.1] :: (pairLines t.2 ++ (ts.flatMap Table.lines ++ [.blank]))

theorem splitPairs_tables (tables : List Table) :
    splitPairs (tables.flatMap Table.lines ++ [.blank]) = ([], headed tables) := by
  cases tables with
  | nil => rfl
  | cons t ts =>
    rw [List.flatMap_cons, List.append_assoc]
    rfl

theorem length_le_headed (tables : List Table) : tables.length ≤ (headed tables).length := by
  have hlines : ∀ ts : List Table, ts.length ≤ (ts.flatMap Table.lines).length := by
    intro ts
    induction ts with
    | nil => exact Nat.le_refl 0
    | cons t ts ih =>
      rw [List.flatMap_cons, List.length_append, Table.lines, List.length_cons, List.length_cons, List.length_cons]
      omega
  cases tables with
  | nil => exact Nat.le_refl 0
  | cons t ts =>
    have hle := hlines ts
    rw [headed, List.length_cons, List.length_cons, List.length_append, List.length_append]
    omega

theorem putTables_headed {rounds : Nat} (hrounds : tables.length < rounds)
    (hnames : (items.map Prod.fst ++ tables.map Prod.fst).Nodup) (hinner : ∀ t ∈ tables, Named t.2) :
    putTables rounds items (headed tables) = some (items ++ tables.map Table.item) := by
  induction tables generalizing rounds items with
  | nil =>
    obtain ⟨rounds, rfl⟩ := Nat.exists_eq_add_one.mpr (Nat.zero_lt_of_lt hrounds)
    exact congrArg some (List.append_nil items).symm
  | cons t ts ih =>
    obtain ⟨rounds, rfl⟩ := Nat.exists_eq_add_one.mpr (Nat.zero_lt_of_lt hrounds)
    obtain ⟨ht, hts⟩ := List.forall_mem_cons.mp hinner
    have hfresh : t.1 ∉ items.map Prod.fst := by
      intro hmem
      exact (List.nodup_append.mp hnames).2.2 _ hmem _ List.mem_cons_self rfl
    have hrest : ((items ++ [t.item]).map Prod.fst ++ ts.map Prod.fst).Nodup := by
      simpa [Table.item] using hnames
    rw [headed, putTables, splitPairs_pairLines, splitPairs_tables, List.append_nil]
    show (putTable items [t.1] (pairs t.2) >>= fun items => putTables rounds items (headed ts)) = _
    rw [putTable_of_fresh hfresh ht]
    show putTables rounds (items ++ [t.item]) (headed ts) = _
    rw [ih (Nat.lt_of_succ_lt_succ hrounds) hrest hts, List.append_assoc]
    rfl

theorem itemsToJson_eq_map (items : Items) : itemsToJson items = items.map fun (k, i) => (k, i.toJson) := by
  induction items with
  | nil => rw [itemsToJson, List.map_nil]
  | cons i items ih => rw [itemsToJson, ih, List.map_cons]

theorem itemsToJson_valueItems (ms : List (String × Json)) : itemsToJson (valueItems ms) = ms := by
  rw [itemsToJson_eq_map, valueItems, List.map_map]
  refine List.map_id'' ?_ ms
  intro m
  simp [Item.toJson]

theorem itemsToJson_document (values : List (String × Json)) (tables : List Table) :
    itemsToJson (valueItems values ++ tables.map Table.item) = values ++ tables.map Table.member := by
  have htables : itemsToJson (tables.map Table.item) = tables.map Table.member := by
    rw [itemsToJson_eq_map, List.map_map]
    refine List.map_congr_left fun t _ => ?_
    simp [Table.item, Table.member, Item.toJson, itemsToJson_valueItems]
  have hvalues := itemsToJson_valueItems values
  rw [itemsToJson_eq_map] at hvalues htables ⊢
  rw [List.map_append, hvalues, htables]

theorem parse?_ofList (hmark : cs.head? ≠ some '\ufeff') :
    parse? (String.ofList cs) = (do
      let ls ← linesOf (cs.length + 1) cs
      let root ← putValues [] (splitPairs ls).1
      let items ← putTables ((splitPairs ls).2.length + 1) root (splitPairs ls).2
      return .object (itemsToJson items)) := by
  rw [parse?, String.toList_ofList]
  split
  · exact absurd rfl hmark
  · rfl

/-- A document that was written is read back. -/
theorem parse?_document? (h : Orderly values tables) {s : String}
    (hs : document? (values ++ tables.map Table.member) = some s) :
    parse? s = some (.object (values ++ tables.map Table.member)) := by
  obtain ⟨shown, hshown, hs⟩ := Option.bind_eq_some_iff.mp hs
  obtain rfl := Option.some.inj hs
  have hlines := says_document h hshown
  -- The values end at the first header, and no table has the name of a value or of an earlier table.
  have hsplit : splitPairs (documentLines values tables ++ [.blank]) = (pairs values, headed tables) := by
    rw [documentLines, List.append_assoc, splitPairs_pairLines, splitPairs_tables, List.append_nil]
  have hnodup := h.names.nodup
  rw [List.map_append, List.map_map] at hnodup
  have hroot : putValues [] (pairs values) = some (valueItems values) :=
    putValues_of_nodup (List.nodup_append.mp hnodup).1
  have hnames : ((valueItems values).map Prod.fst ++ tables.map Prod.fst).Nodup := by
    rw [valueItems, List.map_map]
    exact hnodup
  have hitems : putTables ((headed tables).length + 1) (valueItems values) (headed tables) =
      some (valueItems values ++ tables.map Table.item) :=
    putTables_headed (Nat.lt_succ_of_le (length_le_headed tables)) hnames h.inner
  simp only [parse?_ofList hlines.head?_ne, hlines.linesOf_eq, Option.bind_eq_bind, Option.bind_some, hsplit, hroot, hitems,
    itemsToJson_document]
  rfl

/-! ## What can be written -/

theorem isSome_mapM_iff {α β : Type} {f : α → Option β} {xs : List α} :
    (xs.mapM f).isSome ↔ ∀ x ∈ xs, (f x).isSome := by
  induction xs with
  | nil => simp
  | cons x xs ih =>
    rw [List.forall_mem_cons, ← ih, List.mapM_cons]
    cases f x <;> cases xs.mapM f <;> simp

theorem isSome_line?_iff {m : String × Json} : (line? m).isSome ↔ (scalar? m.2).isSome := by
  rw [line?, Option.isSome_map]

theorem isSome_member?_table {t : Table} : (member? t.member).isSome ↔ ∀ m ∈ t.2, (scalar? m.2).isSome := by
  have hlines : (member? t.member).isSome ↔ (t.2.mapM line?).isSome := by
    show (t.2.mapM line? >>= fun shown => pure ('\n' :: '[' :: (t.1.toList ++ ']' :: '\n' :: shown.flatten))).isSome ↔ _
    cases t.2.mapM line? <;> rfl
  simp only [hlines, isSome_mapM_iff, isSome_line?_iff]

/-- A document can be written exactly if every value in it can. -/
theorem isSome_document?_iff (h : Orderly values tables) : (document? (values ++ tables.map Table.member)).isSome ↔
    (∀ m ∈ values, (scalar? m.2).isSome) ∧ ∀ t ∈ tables, ∀ m ∈ t.2, (scalar? m.2).isSome := by
  have hmembers : (document? (values ++ tables.map Table.member)).isSome ↔
      ((values ++ tables.map Table.member).mapM member?).isSome := by
    rw [document?]
    cases (values ++ tables.map Table.member).mapM member? <;> rfl
  rw [hmembers, isSome_mapM_iff, List.forall_mem_append, List.forall_mem_map]
  refine and_congr (forall₂_congr fun m hm => ?_) (forall₂_congr fun t _ => isSome_member?_table)
  rw [member?_of_flat (h.flat m hm), isSome_line?_iff]

theorem isSome_scalar?_ofNat {n : Nat} : (scalar? (Json.ofNat n)).isSome ↔ n < 2 ^ 63 := by
  have hrange : minNumber ≤ Int.ofNat n ∧ Int.ofNat n ≤ maxNumber ↔ n < 2 ^ 63 := by
    show -9223372036854775808 ≤ (n : Int) ∧ (n : Int) ≤ 9223372036854775807 ↔ n < 9223372036854775808
    omega
  rw [Json.ofNat, scalar?]
  split
  · exact iff_of_true rfl (hrange.mp ‹_›)
  · exact iff_of_false Bool.false_ne_true fun h => absurd (hrange.mpr h) ‹_›

end ContractHost.Toml
