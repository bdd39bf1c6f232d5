import ContractHost.Proofs.ResultCodec
import ContractHost.Report
/-!
# Outcomes as programs report them

The host reads from the record of an outcome what the program has said of itself: whether it succeeded, its output and its
error text. A failure without a text has the one of its status. Fields that say nothing are left out of a record, so the
record of a failure may have no bytes; the host takes this for the absence of a record, which tells the same.
-/
namespace ContractHost

namespace Wire

theorem putNumber_eq_nil_iff {tag n : Nat} : putNumber tag n = [] ↔ n = 0 := by
  by_cases h : n = 0
  · simp [putNumber, h]
  · simp [putNumber, h, putKey_ne_nil]

theorem putBytes_eq_nil_iff {tag : Nat} {b : Bytes} : putBytes tag b = [] ↔ b = [] := by
  by_cases h : b = []
  · simp [putBytes, h]
  · simp [putBytes, h, putDelimited]

theorem putText_eq_nil_iff {tag : Nat} {s : String} : putText tag s = [] ↔ s = "" := by
  rw [putText, putBytes_eq_nil_iff]
  constructor
  · exact ofText_eq_nil
  · rintro rfl
    rfl

end Wire

/-- What a program says of its own outcome. -/
def Output.outcome (gasUsed : Gas) (status : Status) (output : Bytes) (error : String) : Wire.ResultRecord :=
  { success := decide (status = .ok), error, gasUsed, output }

variable {output : Bytes} {error : String}

theorem Output.record_report (gasUsed : Gas) (status : Status) :
    (report gasUsed status output error).record =
      some (Wire.putResultFields (outcome gasUsed status output error)) := by
  show some (_ ++ []) = _
  rw [List.append_nil]
  rfl

/-- The record of an outcome has no bytes exactly if it tells of a failure that used no gas and left neither a text nor an
output. -/
theorem Output.record_report_eq_nil_iff {gasUsed : Gas} {status : Status} :
    (report gasUsed status output error).record = some [] ↔
      status ≠ .ok ∧ gasUsed = 0 ∧ output = [] ∧ error = "" := by
  have hsuccess : (decide (status = .ok)).toNat = 0 ↔ status ≠ .ok := by
    cases status <;> decide
  have hgas : gasUsed.toNat = 0 ↔ gasUsed = 0 := UInt64.toNat_inj (b := 0)
  have hremaining : Wire.putBytes 6 [] = [] := rfl
  rw [record_report, Option.some_inj, Wire.putResultFields, outcome]
  simp only [List.nil_append, List.append_eq_nil_iff, Wire.putNumber_eq_nil_iff, Wire.putText_eq_nil_iff,
    Wire.putBytes_eq_nil_iff, hsuccess, hgas, hremaining]
  constructor
  · rintro ⟨⟨⟨⟨hstatus, herror⟩, hgas⟩, houtput⟩, -⟩
    exact ⟨hstatus, hgas, houtput, herror⟩
  · rintro ⟨hstatus, hgas, houtput, herror⟩
    exact ⟨⟨⟨⟨hstatus, herror⟩, hgas⟩, houtput⟩, trivial⟩

theorem Output.readResult_outcome (gasUsed : Gas) (status : Status) (houtput : output.length < 2 ^ 64)
    (herror : (Bytes.ofText error).length < 2 ^ 64) :
    Wire.readResult (Wire.putResultFields (outcome gasUsed status output error)) =
      .ok (.node (outcome gasUsed status output error) []) := by
  have hrecord : ∀ a, (outcome gasUsed status output error).action = some a → (Wire.putAction a).length < 2 ^ 64 :=
    fun _ h => absurd h.symm (Option.some_ne_none _)
  have hremaining : (outcome gasUsed status output error).remaining.length < 2 ^ 64 := Nat.two_pow_pos 64
  exact (Wire.merges_resultFields 99 hrecord herror houtput hremaining).record

namespace Report

theorem ofRecord_outcome (gasUsed : Gas) (status : Status) :
    ofRecord status (Output.outcome gasUsed status output error) =
      { success := decide (status = .ok), output
        error := if status ≠ .ok ∧ error = "" then status.text else error } := by
  by_cases hstatus : status = .ok
  · simp [ofRecord, Output.outcome, hstatus]
  · by_cases herror : error = "" <;> simp [ofRecord, Output.outcome, hstatus, herror]

/-- What a program reports is what the host makes of it: success just with the status of success, the same output, and
the same error text, but for a failure without a text, which gets the one of its status. This does not depend on the gas
that is reported, although it decides whether the record of such a failure has any bytes. -/
theorem decode_report (houtput : output.length < 2 ^ 64) (herror : (Bytes.ofText error).length < 2 ^ 64)
    (gasUsed : Gas) (status : Status) :
    let told := Output.report gasUsed status output error
    decode status told.record =
      { success := decide (status = .ok), output
        error := if status ≠ .ok ∧ error = "" then status.text else error } ∧
    (told.record = some [] ↔ status ≠ .ok ∧ gasUsed = 0 ∧ output = [] ∧ error = "") := by
  intro told
  refine ⟨?_, Output.record_report_eq_nil_iff⟩
  have hread := Output.readResult_outcome gasUsed status houtput herror
  have hrecord : told.record = some (Wire.putResultFields (Output.outcome gasUsed status output error)) :=
    Output.record_report gasUsed status
  rw [hrecord, decode, Option.getD_some]
  cases hbytes : Wire.putResultFields (Output.outcome gasUsed status output error) with
  | nil =>
    have hempty : told.record = some [] := by rw [hrecord, hbytes]
    obtain ⟨hstatus, -, rfl, rfl⟩ := Output.record_report_eq_nil_iff.mp hempty
    simp [ofStatus, hstatus]
  | cons b rest =>
    rw [hbytes] at hread
    simp only [hread]
    exact ofRecord_outcome gasUsed status

/-- Two failures without a text: the record of the first has no bytes, that of the second tells of its gas. -/
theorem failures_decoded :
    let told (gasUsed : Gas) := (Output.report gasUsed .outOfGas [] "").record
    let failure : Report := { success := false, error := "out of gas", output := [] }
    told 0 = some [] ∧ told 7 ≠ some [] ∧ decode .outOfGas (told 0) = failure ∧ decode .outOfGas (told 7) = failure := by
  have hshort : ([] : Bytes).length < 2 ^ 64 ∧ (Bytes.ofText "").length < 2 ^ 64 := by decide
  have hnone := decode_report hshort.1 hshort.2 0 .outOfGas
  have hsome := decode_report hshort.1 hshort.2 7 .outOfGas
  exact ⟨hnone.2.mpr (by decide), fun h => absurd (hsome.2.mp h) (by decide), hnone.1, hsome.1⟩

end Report

end ContractHost
