import ContractHost.Proofs.RequestInputs
import ContractHost.Proofs.ResultCodec
/-!
# Which results can be read back

A result tree is read back from its bytes if and only if its amounts fit 32 bytes and no path of it is longer than records
may be nested. For any other tree reading fails; it never comes to another tree. That writing does not check this is why
both halves are needed: `Wire.Breaks` says where the reader stops in what was written.
-/
namespace ContractHost

namespace Wire

/-! ## Records that break off -/

variable {α : Type} {step : Step α} {a : α} {b : Bytes}

/-- Merging the fields in `b` into `a` fails. -/
def Breaks (step : Step α) (b : Bytes) (a : α) : Prop :=
  ∃ e, MergesTo step b a (.error e)

theorem Breaks.append (h : Breaks step b a) (b' : Bytes) : Breaks step (b ++ b') a := by
  obtain ⟨e, he⟩ := h
  refine ⟨e, fun limit rounds rest hlimit hrounds => ?_⟩
  have hsize : (b ++ b').length = b.length + b'.length := List.length_append
  have hmore : (b' ++ rest).length = b'.length + rest.length := List.length_append
  obtain ⟨rounds', _, hbroken⟩ := he limit rounds (b' ++ rest) (by omega) (by omega)
  rw [List.append_assoc, hbroken]
  exact ⟨rest.length, Nat.le_add_left _ _, rfl⟩

/-! ## Results that are nested too deeply -/

/-- Every record says what was asked for. -/
def Complete (t : Tree ResultRecord) : Prop :=
  ∀ u ∈ t.subtrees, u.label.action ≠ none

mutual

theorem breaks_putResult (t : Tree ResultRecord) (depth : Nat) (hcomplete : Complete t) (hheight : depth < t.height)
    (hsize : (putResult t).length < 2 ^ 64) : Breaks (resultStep depth) (putResult t) (.node {} []) := by
  match t with
  | .node r nested =>
    rw [Tree.height] at hheight
    rw [putResult, List.length_append] at hsize
    rw [putResult]
    match depth with
    | 0 =>
      -- The action is a record in the record, for which there is no level left.
      obtain ⟨a, ha⟩ := Option.ne_none_iff_exists'.mp (hcomplete _ (Tree.self_mem_subtrees _))
      have haction : r.action = some a := ha
      have hfirst : Breaks (resultStep 0) (putDelimited 1 (putAction a)) (.node {} []) := by
        rw [putDelimited, List.append_assoc]
        exact ⟨_, .field (by decide) (by decide) fun rest => rfl⟩
      simp only [putResultFields, haction, List.append_assoc]
      exact hfirst.append _
    | inner + 1 =>
      have hbelow : ∀ u ∈ Tree.subtreesAll nested, u.label.action ≠ none :=
        fun u hu => hcomplete u (List.mem_cons_of_mem _ hu)
      have hfields := merges_putResultFields inner (r := r) (by omega)
      obtain ⟨e, he⟩ := breaks_putNested nested inner r [] hbelow (by omega) (by omega)
      exact ⟨e, hfields.append he⟩

theorem breaks_putNested (ts : List (Tree ResultRecord)) (inner : Nat) (r : ResultRecord)
    (earlier : List (Tree ResultRecord)) (hcomplete : ∀ u ∈ Tree.subtreesAll ts, u.label.action ≠ none)
    (hheight : inner < Tree.heightAll ts) (hsize : (putNested ts).length < 2 ^ 64) :
    Breaks (resultStep (inner + 1)) (putNested ts) (.node r earlier) := by
  match ts with
  | [] => exact absurd hheight (Nat.not_lt_zero _)
  | t :: ts =>
    rw [Tree.heightAll] at hheight
    rw [putNested, List.length_append] at hsize
    have hlength := length_le_putDelimited 7 (putResult t)
    have hfirst : ∀ u ∈ t.subtrees, u.label.action ≠ none := fun u hu => hcomplete u (List.mem_append_left _ hu)
    have hrest : ∀ u ∈ Tree.subtreesAll ts, u.label.action ≠ none := fun u hu => hcomplete u (List.mem_append_right _ hu)
    rw [putNested]
    by_cases ht : t.height ≤ inner
    · have hmerges : Merges (resultStep (inner + 1)) (putDelimited 7 (putResult t)) (.node r earlier)
          (.node r (earlier ++ [t])) :=
        mergesTo_putRecord (fun t => (.node r (earlier ++ [t]) : Tree ResultRecord))
          (by decide) (by decide) (fun _ => rfl) (merges_putResult t inner ht (by omega)) (by omega)
      obtain ⟨e, he⟩ := breaks_putNested ts inner r (earlier ++ [t]) hrest (by omega) (by omega)
      exact ⟨e, hmerges.append he⟩
    · obtain ⟨e, he⟩ := breaks_putResult t inner hfirst (by omega) (by omega)
      have hbreaks : Breaks (resultStep (inner + 1)) (putDelimited 7 (putResult t)) (.node r earlier) :=
        ⟨_, mergesTo_putRecord (fun t => (.node r (earlier ++ [t]) : Tree ResultRecord))
          (by decide) (by decide) (fun _ => rfl) he (by omega)⟩
      exact hbreaks.append _

end

/-- Records that are nested too deeply are not read back. -/
theorem readResult_putResult_error {t : Tree ResultRecord} (hcomplete : Complete t) (hheight : maxDepth < t.height)
    (hsize : (putResult t).length < 2 ^ 64) : ∃ e, readResult (putResult t) = .error e := by
  obtain ⟨e, he⟩ := breaks_putResult t maxDepth hcomplete hheight hsize
  exact ⟨e, he.record⟩

end Wire

/-! ## What records describe -/

theorem Amount.eq_of_ofBytes_toBytes {a a' : Amount} (h : ofBytes (toBytes a) = .ok a') : a' = a :=
  (toNat_of_ofBytes h).symm.trans (Bytes.toNat_ofNat a)

theorem Action.eq_of_ofRecord_toRecord {a a' : Action} (h : ofRecord a.toRecord = .ok a') : a' = a := by
  obtain ⟨kind, hkind, h⟩ := bind_ok h
  obtain ⟨amount, hamount, h⟩ := bind_ok h
  rw [toRecord, ActionKind.ofNumber_number] at hkind
  cases h
  cases hkind
  rw [Amount.eq_of_ofBytes_toBytes hamount]
  rfl

theorem Action.fits_of_ofRecord {r : Wire.ActionRecord} {a : Action} (h : ofRecord r = .ok a) : a.amount.Fits := by
  obtain ⟨kind, -, h⟩ := bind_ok h
  obtain ⟨amount, hamount, h⟩ := bind_ok h
  cases h
  exact Amount.fits_of_ofBytes hamount

namespace ResultTree

theorem ofRecords_ok {r : Wire.ResultRecord} {nested : List (Tree Wire.ResultRecord)} {t : ResultTree}
    (h : ofRecords (.node r nested) = .ok t) :
    ∃ a action children remaining, r.action = some a ∧ ofRecordList nested = .ok children ∧
      Action.ofRecord a = .ok action ∧ Amount.ofBytes r.remaining = .ok remaining ∧
      t = .node { action, success := r.success, error := r.error, gasUsed := r.gasUsed, output := r.output,
                  remaining } children := by
  rw [ofRecords] at h
  cases ha : r.action with
  | none =>
    rw [ha] at h
    cases h
  | some a =>
    rw [ha] at h
    obtain ⟨children, hchildren, h⟩ := bind_ok h
    obtain ⟨action, haction, h⟩ := bind_ok h
    obtain ⟨remaining, hremaining, h⟩ := bind_ok h
    cases h
    exact ⟨a, action, children, remaining, rfl, hchildren, haction, hremaining, rfl⟩

theorem ofRecordList_cons_ok {r : Tree Wire.ResultRecord} {rs : List (Tree Wire.ResultRecord)} {ts : List ResultTree}
    (h : ofRecordList (r :: rs) = .ok ts) :
    ∃ t ts', ofRecords r = .ok t ∧ ofRecordList rs = .ok ts' ∧ ts = t :: ts' := by
  obtain ⟨t, ht, h⟩ := bind_ok h
  obtain ⟨ts', hts, h⟩ := bind_ok h
  cases h
  exact ⟨t, ts', ht, hts, rfl⟩

mutual

theorem fits_of_ofRecords (r : Tree Wire.ResultRecord) {t : ResultTree} (h : ofRecords r = .ok t) : t.Fits := by
  match r with
  | .node r nested =>
    obtain ⟨a, action, children, remaining, -, hchildren, haction, hremaining, rfl⟩ := ofRecords_ok h
    intro u hu
    rw [Tree.subtrees] at hu
    rcases List.mem_cons.mp hu with rfl | hbelow
    · exact ⟨Action.fits_of_ofRecord haction, Amount.fits_of_ofBytes hremaining⟩
    · exact fits_of_ofRecordList nested hchildren u hbelow

theorem fits_of_ofRecordList (rs : List (Tree Wire.ResultRecord)) {ts : List ResultTree}
    (h : ofRecordList rs = .ok ts) : ∀ u ∈ Tree.subtreesAll ts, u.label.Fits := by
  match rs with
  | [] =>
    cases h
    exact fun u hu => nomatch hu
  | r :: rs =>
    obtain ⟨t, ts, ht, hts, rfl⟩ := ofRecordList_cons_ok h
    intro u hu
    rcases List.mem_append.mp hu with hfirst | hrest
    · exact fits_of_ofRecords r ht u hfirst
    · exact fits_of_ofRecordList rs hts u hrest

end

mutual

theorem eq_of_ofRecords_toRecords (t : ResultTree) {u : ResultTree} (h : ofRecords t.toRecords = .ok u) : u = t := by
  match t with
  | .node r below =>
    rw [toRecords, Tree.map] at h
    obtain ⟨a, action, children, remaining, ha, hchildren, haction, hremaining, rfl⟩ := ofRecords_ok h
    cases ha
    rw [eq_of_ofRecordList_mapAll below hchildren, Action.eq_of_ofRecord_toRecord haction,
      Amount.eq_of_ofBytes_toBytes hremaining]
    rfl

theorem eq_of_ofRecordList_mapAll (ts : List ResultTree) {us : List ResultTree}
    (h : ofRecordList (Tree.mapAll recordOf ts) = .ok us) : us = ts := by
  match ts with
  | [] =>
    cases h
    rfl
  | t :: ts =>
    obtain ⟨u, us, hu, hus, rfl⟩ := ofRecordList_cons_ok h
    rw [eq_of_ofRecords_toRecords t hu, eq_of_ofRecordList_mapAll ts hus]

end

theorem complete_toRecords (t : ResultTree) : Wire.Complete t.toRecords := by
  intro u hu
  rw [toRecords, Tree.subtrees_map] at hu
  obtain ⟨v, -, rfl⟩ := List.mem_map.mp hu
  rw [Tree.label_map]
  exact Option.some_ne_none _

/-- What is read back is the tree that was written, and the tree keeps to the bounds of the reader. -/
theorem ofBytes_toBytes_ok {t u : ResultTree} (hsize : t.toBytes.length < 2 ^ 64) (h : ofBytes t.toBytes = .ok u) :
    u = t ∧ t.Fits ∧ t.height ≤ Wire.maxDepth := by
  obtain ⟨records, hread, h⟩ := bind_ok h
  have hheight : t.height ≤ Wire.maxDepth := by
    apply Nat.le_of_not_lt
    intro hdeep
    have hrecords : Wire.maxDepth < t.toRecords.height := by
      rw [toRecords, Tree.height_map]
      exact hdeep
    obtain ⟨e, he⟩ := Wire.readResult_putResult_error t.complete_toRecords hrecords hsize
    have hok : Wire.readResult t.toBytes = .ok records := mapError_ok hread
    rw [toBytes, he] at hok
    cases hok
  have hrecords : Wire.readResult t.toBytes = .ok t.toRecords :=
    Wire.readResult_putResult (by rw [toRecords, Tree.height_map]; exact hheight) hsize
  rw [mapError_ok hread] at hrecords
  cases hrecords
  have hsame := eq_of_ofRecords_toRecords t h
  subst hsame
  exact ⟨rfl, fits_of_ofRecords _ h, hheight⟩

/-- The bytes of a tree are read back as the tree if and only if its amounts fit and no path of it has more than 100
nodes; the bytes of any other tree are not read at all. -/
theorem ofBytes_toBytes_iff (t : ResultTree) (hsize : t.toBytes.length < 2 ^ 64) :
    (ofBytes t.toBytes = .ok t ↔ t.Fits ∧ t.height ≤ 100) ∧
      (¬ (t.Fits ∧ t.height ≤ 100) → ∃ e, ofBytes t.toBytes = .error e) := by
  constructor
  · constructor
    · intro h
      exact (ofBytes_toBytes_ok hsize h).2
    · rintro ⟨hfits, hheight⟩
      exact ofBytes_toBytes hheight hfits hsize
  · intro hbeyond
    cases h : ofBytes t.toBytes with
    | error e => exact ⟨e, rfl⟩
    | ok u => exact absurd (ofBytes_toBytes_ok hsize h).2 hbeyond

/-- A path of frames, each of which asks for the next one and pays it the largest amount that fits. The last one has `n`
frames above it. -/
def path : Nat → ResultTree
  | 0 => .node pays []
  | n + 1 => .node pays [path n]
where
  pays : FrameResult :=
    { action := .call "" [] (2 ^ 256 - 1) 0, success := true, error := "", gasUsed := 0, output := [], remaining := 0 }

theorem height_path (n : Nat) : (path n).height = n + 1 := by
  induction n with
  | zero => rfl
  | succ n ih =>
    show 1 + max (path n).height 0 = _
    rw [ih]
    omega

theorem fits_path (n : Nat) : (path n).Fits := by
  have hpays : path.pays.Fits := ⟨by decide, by decide⟩
  induction n with
  | zero => exact Tree.forall_subtrees_iff.mpr ⟨hpays, nofun⟩
  | succ n ih =>
    refine Tree.forall_subtrees_iff.mpr ⟨hpays, ?_⟩
    intro c hc
    rw [List.mem_singleton.mp hc]
    exact ih

theorem length_path_le {n : Nat} (hn : n ≤ 1000) : (path n).toBytes.length ≤ 100 * (n + 1) := by
  have hfields : (Wire.putResultFields (recordOf path.pays)).length = 40 := by decide +kernel
  induction n with
  | zero =>
    show (Wire.putResultFields (recordOf path.pays) ++ []).length ≤ _
    rw [List.append_nil, hfields]
    decide
  | succ n ih =>
    have hinner := ih (by omega)
    have hlength : (Wire.putVarint (path n).toBytes.length).length ≤ 10 :=
      (Wire.length_putVarint_le_iff (by decide)).mpr (by omega)
    have hkey : (Wire.putKey 7 .delimited).length = 1 := by decide +kernel
    show (Wire.putResultFields (recordOf path.pays) ++ (Wire.putDelimited 7 (path n).toBytes ++ [])).length ≤ _
    simp only [Wire.putDelimited, List.length_append, List.length_nil, hfields, hkey]
    omega

/-- A path of 100 frames is read back and one of 101 is not. -/
theorem path_legible : ofBytes (path 99).toBytes = .ok (path 99) ∧ ∃ e, ofBytes (path 100).toBytes = .error e := by
  have hsize : (path 99).toBytes.length < 2 ^ 64 := Nat.lt_of_le_of_lt (length_path_le (by decide)) (by decide)
  have hsize' : (path 100).toBytes.length < 2 ^ 64 := Nat.lt_of_le_of_lt (length_path_le (by decide)) (by decide)
  have hlong : ¬ ((path 100).Fits ∧ (path 100).height ≤ 100) := by
    rw [height_path]
    exact fun h => absurd h.2 (by decide)
  exact ⟨(ofBytes_toBytes_iff (path 99) hsize).1.mpr ⟨fits_path 99, Nat.le_of_eq (height_path 99)⟩,
    (ofBytes_toBytes_iff (path 100) hsize').2 hlong⟩

end ResultTree

end ContractHost
