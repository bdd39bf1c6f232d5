import ContractHost.HostError
import ContractHost.Wire.Records
/-!
# What a program reports at its end

A program ends with a gas figure, a status and the encoded record of its own outcome. The host keeps of that record
whether it tells of success, the error text and the output. Bytes that are no record fail the frame and become its
output.
-/
namespace ContractHost

/-- What a program hands back at its end. -/
structure Output where
  gasUsed : Gas
  status : Status
  /-- The encoded record of the outcome, if there is one. -/
  record : Option Bytes
  deriving DecidableEq

/-- The output that tells of an outcome. -/
def Output.report (gasUsed : UInt64) (status : Status) (output : List UInt8) (error : String) : Output :=
  { gasUsed, status,
    record := some (Wire.putResult (.node { success := decide (status = .ok), error, gasUsed, output } [])) }

/-- What the host keeps of a program's own account. -/
structure Report where
  success : Bool
  error : String
  output : Bytes
  deriving DecidableEq

namespace Report

/-- The report of a program that ended with a status and without a record. -/
def ofStatus (status : Status) : Report :=
  { success := decide (status = .ok), error := status.text, output := [] }

/-- The report of a program that ended with a status and a record. Both have to tell of success for the frame to
succeed, and a failure without a text has the one of its status. -/
def ofRecord (status : Status) (r : Wire.ResultRecord) : Report :=
  let success := decide (status = .ok) && r.success
  let error :=
    if success ∨ r.error ≠ "" then r.error
    else if status = .ok then Status.contractError.text
    else status.text
  { success, error, output := r.output }

def damaged (fault : Wire.Error) (record : List UInt8) : Report :=
  { success := false, error := "malformed action result: " ++ fault.message, output := record }

/-- The report of a program that ended with a status and perhaps the bytes of a record. No bytes are no record. -/
def decode (status : Status) (record : Option Bytes) : Report :=
  match record.getD [] with
  | [] => ofStatus status
  | b :: rest =>
    match Wire.readResult (b :: rest) with
    | .ok t => ofRecord status t.label
    | .error fault => damaged fault (b :: rest)

end Report

end ContractHost
