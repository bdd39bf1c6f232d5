import ContractHost.Proofs.Amounts
import ContractHost.Proofs.Trees
import ContractHost.Proofs.WireFields
import ContractHost.ResultTree
/-!
# Result trees as bytes

The bytes of a result tree are read back as the tree if its amounts fit 32 bytes and no path of it is longer than
records may be nested.
-/
namespace ContractHost

namespace Wire

/-! ## Records -/

theorem merges_putAction (depth : Nat) {a : ActionRecord} (hsize : (putAction a).length < 2 ^ 64) :
    Merges (actionStep depth) (putAction a) {} a := by
  have hamount := length_le_putBytes 2 a.amount
  have hmethod := length_le_putBytes 3 (Bytes.ofText a.method)
  have hargs := length_le_putBytes 4 a.args
  have hkind : a.kind.toNat < 2 ^ 64 := Nat.lt_trans a.kind.toNat_lt (by decide)
  simp only [putAction, putText, List.length_append] at hsize
  have h1 : Merges (actionStep depth) (putNumber 1 a.kind.toNat) {} { kind := UInt32.ofNat a.kind.toNat } :=
    merges_putNumber (fun n => ({ kind := UInt32.ofNat n } : ActionRecord))
      (by decide) (by decide) (fun _ => rfl) rfl hkind
  rw [UInt32.ofNat_toNat] at h1
  have h2 : Merges (actionStep depth) (putBytes 2 a.amount) { kind := a.kind } { kind := a.kind, amount := a.amount } :=
    merges_putBytes (fun b => ({ kind := a.kind, amount := b } : ActionRecord))
      (by decide) (by decide) (fun _ => rfl) rfl (by omega)
  have h3 : Merges (actionStep depth) (putText 3 a.method) { kind := a.kind, amount := a.amount }
      { kind := a.kind, amount := a.amount, method := a.method } :=
    merges_putText (fun s => ({ kind := a.kind, amount := a.amount, method := s } : ActionRecord))
      (by decide) (by decide) (fun _ => rfl) rfl (by omega)
  have h4 : Merges (actionStep depth) (putBytes 4 a.args) { kind := a.kind, amount := a.amount, method := a.method }
      { kind := a.kind, amount := a.amount, method := a.method, args := a.args } :=
    merges_putBytes (fun b => ({ kind := a.kind, amount := a.amount, method := a.method, args := b } : ActionRecord))
      (by decide) (by decide) (fun _ => rfl) rfl (by omega)
  have h5 : Merges (actionStep depth) (putNumber 5 a.gasLimit.toNat)
      { kind := a.kind, amount := a.amount, method := a.method, args := a.args }
      { kind := a.kind, amount := a.amount, method := a.method, args := a.args,
        gasLimit := UInt64.ofNat a.gasLimit.toNat } :=
    merges_putNumber
      (fun n => ({ kind := a.kind, amount := a.amount, method := a.method, args := a.args,
                   gasLimit := UInt64.ofNat n } : ActionRecord))
      (by decide) (by decide) (fun _ => rfl) rfl a.gasLimit.toNat_lt
  rw [UInt64.ofNat_toNat] at h5
  exact (((h1.append h2).append h3).append h4).append h5

theorem length_putResultFields (r : ResultRecord) :
    r.output.length ≤ (putResultFields r).length ∧ (Bytes.ofText r.error).length ≤ (putResultFields r).length ∧
      r.remaining.length ≤ (putResultFields r).length := by
  have herror := length_le_putBytes 3 (Bytes.ofText r.error)
  have houtput := length_le_putBytes 5 r.output
  have hremaining := length_le_putBytes 6 r.remaining
  simp only [putResultFields, putText, List.length_append]
  omega

theorem length_le_putNested {t : Tree ResultRecord} {ts : List (Tree ResultRecord)} (h : t ∈ ts) :
    (putResult t).length ≤ (putNested ts).length := by
  induction ts with
  | nil => cases h
  | cons u us ih =>
    have hfirst := length_le_putDelimited 7 (putResult u)
    rw [putNested, List.length_append]
    rcases List.mem_cons.mp h with rfl | hrest
    · omega
    · have hle := ih hrest
      omega

theorem merges_resultFields (inner : Nat) {r : ResultRecord}
    (hrecord : ∀ a, r.action = some a → (putAction a).length < 2 ^ 64) (herror : (Bytes.ofText r.error).length < 2 ^ 64)
    (houtput : r.output.length < 2 ^ 64) (hremaining : r.remaining.length < 2 ^ 64) :
    Merges (resultStep (inner + 1)) (putResultFields r) (.node {} []) (.node r []) := by
  obtain ⟨first, hbytes, h1⟩ : ∃ first, putResultFields r = first ++ putNumber 2 r.success.toNat ++ putText 3 r.error ++
      putNumber 4 r.gasUsed.toNat ++ putBytes 5 r.output ++ putBytes 6 r.remaining ∧
      Merges (resultStep (inner + 1)) first (.node {} []) (.node { action := r.action } []) := by
    cases haction : r.action with
    | none =>
      refine ⟨[], ?_, .nil _ _⟩
      rw [putResultFields, haction]
    | some a =>
      refine ⟨putDelimited 1 (putAction a), ?_, ?_⟩
      · rw [putResultFields, haction]
      · have hlength := hrecord a haction
        exact mergesTo_putRecord (fun a => (.node { action := some a } [] : Tree ResultRecord))
          (by decide) (by decide) (fun _ => rfl) (merges_putAction inner hlength) hlength
  have h2 : Merges (resultStep (inner + 1)) (putNumber 2 r.success.toNat) (.node { action := r.action } [])
      (.node { action := r.action, success := r.success.toNat ≠ 0 } []) :=
    merges_putNumber (fun n => (.node { action := r.action, success := n ≠ 0 } [] : Tree ResultRecord))
      (by decide) (by decide) (fun _ => rfl) rfl (by cases r.success <;> decide)
  have hsuccess : decide (r.success.toNat ≠ 0) = r.success := by cases r.success <;> rfl
  rw [hsuccess] at h2
  have h3 : Merges (resultStep (inner + 1)) (putText 3 r.error)
      (.node { action := r.action, success := r.success } [])
      (.node { action := r.action, success := r.success, error := r.error } []) :=
    merges_putText (fun s => (.node { action := r.action, success := r.success, error := s } [] : Tree ResultRecord))
      (by decide) (by decide) (fun _ => rfl) rfl herror
  have h4 : Merges (resultStep (inner + 1)) (putNumber 4 r.gasUsed.toNat)
      (.node { action := r.action, success := r.success, error := r.error } [])
      (.node { action := r.action, success := r.success, error := r.error,
               gasUsed := UInt64.ofNat r.gasUsed.toNat } []) :=
    merges_putNumber
      (fun n => (.node { action := r.action, success := r.success, error := r.error,
                         gasUsed := UInt64.ofNat n } [] : Tree ResultRecord))
      (by decide) (by decide) (fun _ => rfl) rfl r.gasUsed.toNat_lt
  rw [UInt64.ofNat_toNat] at h4
  have h5 : Merges (resultStep (inner + 1)) (putBytes 5 r.output)
      (.node { action := r.action, success := r.success, error := r.error, gasUsed := r.gasUsed } [])
      (.node { action := r.action, success := r.success, error := r.error, gasUsed := r.gasUsed,
               output := r.output } []) :=
    merges_putBytes
      (fun b => (.node { action := r.action, success := r.success, error := r.error, gasUsed := r.gasUsed,
                         output := b } [] : Tree ResultRecord))
      (by decide) (by decide) (fun _ => rfl) rfl houtput
  have h6 : Merges (resultStep (inner + 1)) (putBytes 6 r.remaining)
      (.node { action := r.action, success := r.success, error := r.error, gasUsed := r.gasUsed,
               output := r.output } []) (.node r []) :=
    merges_putBytes
      (fun b => (.node { action := r.action, success := r.success, error := r.error, gasUsed := r.gasUsed,
                         output := r.output, remaining := b } [] : Tree ResultRecord))
      (by decide) (by decide) (fun _ => rfl) rfl hremaining
  rw [hbytes]
  exact ((((h1.append h2).append h3).append h4).append h5).append h6

theorem merges_putResultFields (inner : Nat) {r : ResultRecord} (hsize : (putResultFields r).length < 2 ^ 64) :
    Merges (resultStep (inner + 1)) (putResultFields r) (.node {} []) (.node r []) := by
  obtain ⟨houtput, herror, hremaining⟩ := length_putResultFields r
  have hrecord : ∀ a, r.action = some a → (putAction a).length < 2 ^ 64 := by
    intro a haction
    have hlength := length_le_putDelimited 1 (putAction a)
    simp only [putResultFields, haction, List.length_append] at hsize
    omega
  exact merges_resultFields inner hrecord (by omega) (by omega) (by omega)

mutual

theorem merges_putResult (t : Tree ResultRecord) (depth : Nat) (hheight : t.height ≤ depth)
    (hsize : (putResult t).length < 2 ^ 64) : Merges (resultStep depth) (putResult t) (.node {} []) t := by
  match t with
  | .node r nested =>
    rw [Tree.height] at hheight
    rw [putResult, List.length_append] at hsize
    obtain ⟨inner, rfl⟩ : ∃ inner, depth = inner + 1 := ⟨depth - 1, by omega⟩
    have hfields := merges_putResultFields inner (r := r) (by omega)
    have hnested := merges_putNested nested inner r [] (by omega) (by omega)
    rw [putResult]
    exact hfields.append hnested

theorem merges_putNested (ts : List (Tree ResultRecord)) (inner : Nat) (r : ResultRecord)
    (earlier : List (Tree ResultRecord)) (hheight : Tree.heightAll ts ≤ inner)
    (hsize : (putNested ts).length < 2 ^ 64) :
    Merges (resultStep (inner + 1)) (putNested ts) (.node r earlier) (.node r (earlier ++ ts)) := by
  match ts with
  | [] =>
    rw [List.append_nil]
    exact .nil _ _
  | t :: ts =>
    rw [Tree.heightAll] at hheight
    rw [putNested, List.length_append] at hsize
    have hlength := length_le_putDelimited 7 (putResult t)
    have ht := merges_putResult t inner (by omega) (by omega)
    have hfirst : Merges (resultStep (inner + 1)) (putDelimited 7 (putResult t)) (.node r earlier)
        (.node r (earlier ++ [t])) :=
      mergesTo_putRecord (fun t => (.node r (earlier ++ [t]) : Tree ResultRecord))
        (by decide) (by decide) (fun _ => rfl) ht (by omega)
    have hrest := merges_putNested ts inner r (earlier ++ [t]) (by omega) (by omega)
    rw [List.append_assoc] at hrest
    rw [putNested]
    exact hfirst.append hrest

end

theorem readResult_putResult {t : Tree ResultRecord} (hheight : t.height ≤ maxDepth)
    (hsize : (putResult t).length < 2 ^ 64) : readResult (putResult t) = .ok t :=
  (merges_putResult t maxDepth hheight hsize).record

end Wire

/-! ## Actions and results -/

theorem Action.ofRecord_toRecord {a : Action} (h : a.amount.Fits) : ofRecord a.toRecord = .ok a := by
  rw [ofRecord, toRecord, ActionKind.ofNumber_number, Amount.ofBytes_toBytes h]
  rfl

structure FrameResult.Fits (r : FrameResult) : Prop where
  action : r.action.amount.Fits
  remaining : r.remaining.Fits

namespace ResultTree

theorem length_toBytes_le {t u : ResultTree} (h : u ∈ t.children) : u.toBytes.length ≤ t.toBytes.length := by
  obtain ⟨r, below⟩ := t
  have hmem : u.toRecords ∈ Tree.mapAll recordOf below := by
    rw [Tree.mapAll_eq_map]
    exact List.mem_map_of_mem h
  have hle := Wire.length_le_putNested hmem
  show _ ≤ (Wire.putResult (.node (recordOf r) (Tree.mapAll recordOf below))).length
  rw [Wire.putResult, List.length_append]
  exact Nat.le_trans hle (Nat.le_add_left _ _)

/-- The amounts of all results of a tree fit 32 bytes. -/
def Fits (t : ResultTree) : Prop :=
  ∀ u ∈ t.subtrees, u.label.Fits

mutual

theorem ofRecords_toRecords (t : ResultTree) (h : t.Fits) : ofRecords t.toRecords = .ok t := by
  match t with
  | .node r below =>
    have hself : r.Fits := h _ (Tree.self_mem_subtrees _)
    have hbelow : ∀ u ∈ Tree.subtreesAll below, u.label.Fits := fun u hu => h u (List.mem_cons_of_mem _ hu)
    have haction := Action.ofRecord_toRecord hself.action
    have hremaining := Amount.ofBytes_toBytes hself.remaining
    rw [toRecords, Tree.map, ofRecords]
    simp only [recordOf, ofRecordList_mapAll below hbelow, haction, hremaining]
    rfl

theorem ofRecordList_mapAll (ts : List ResultTree) (h : ∀ u ∈ Tree.subtreesAll ts, u.label.Fits) :
    ofRecordList (Tree.mapAll recordOf ts) = .ok ts := by
  match ts with
  | [] => rfl
  | t :: ts =>
    have hfirst : ofRecords (Tree.map recordOf t) = .ok t :=
      ofRecords_toRecords t fun u hu => h u (List.mem_append_left _ hu)
    have hrest := ofRecordList_mapAll ts fun u hu => h u (List.mem_append_right _ hu)
    rw [Tree.mapAll, ofRecordList, hfirst, hrest]
    rfl

end

/-- The bytes of a tree are read back as the tree. -/
theorem ofBytes_toBytes {t : ResultTree} (hheight : t.height ≤ Wire.maxDepth) (hfits : t.Fits)
    (hsize : t.toBytes.length < 2 ^ 64) : ofBytes t.toBytes = .ok t := by
  have hrecords : t.toRecords.height ≤ Wire.maxDepth := by
    rw [toRecords, Tree.height_map]
    exact hheight
  have hread : Wire.readResult t.toBytes = .ok t.toRecords := Wire.readResult_putResult hrecords hsize
  rw [ofBytes, hread]
  exact ofRecords_toRecords t hfits

end ResultTree

end ContractHost
