import ContractHost.Action
/-!
# Result trees

A result tree has a node for every frame that was asked for, the nested ones in call order: what was asked, how it
ended, and what it cost.
-/
namespace ContractHost

/-- What a frame was asked to do and how it ended. -/
structure FrameResult where
  action : Action
  success : Bool
  error : String
  gasUsed : UInt64
  output : Bytes
  /-- The price of the gas that was left. -/
  remaining : Amount
  deriving DecidableEq

/-- The result of a frame with the results of the frames that it asked for. -/
abbrev ResultTree := Tree FrameResult

namespace ResultTree

def refused (action : Action) (error : String) (gasUsed : UInt64) : ResultTree :=
  .node { action, success := false, error, gasUsed, output := [], remaining := 0 } []

/-- Keeps at most `bound` argument bytes at every node. -/
def truncateArgs (bound : Nat) (t : ResultTree) : ResultTree :=
  t.map fun r => { r with action := { r.action with args := r.action.args.take bound } }

def recordOf (r : FrameResult) : Wire.ResultRecord :=
  { action := some r.action.toRecord, success := r.success, error := r.error, gasUsed := r.gasUsed,
    output := r.output, remaining := Amount.toBytes r.remaining }

def toRecords (t : ResultTree) : Tree Wire.ResultRecord :=
  t.map recordOf

mutual

/-- The tree that records describe. A record's nested records are looked at before its own action and amount. -/
def ofRecords : Tree Wire.ResultRecord → Except FormatError ResultTree
  | .node r nested => do
    match r.action with
    | none => .error .noAction
    | some a =>
      let children ← ofRecordList nested
      let action ← Action.ofRecord a
      let remaining ← Amount.ofBytes r.remaining
      return .node { action, success := r.success, error := r.error, gasUsed := r.gasUsed, output := r.output,
                     remaining } children

def ofRecordList : List (Tree Wire.ResultRecord) → Except FormatError (List ResultTree)
  | [] => .ok []
  | t :: ts => do
    let t ← ofRecords t
    let ts ← ofRecordList ts
    return t :: ts

end

def toBytes (t : ResultTree) : Bytes :=
  Wire.putResult t.toRecords

def ofBytes (b : List UInt8) : Except FormatError ResultTree := do
  let records ← (Wire.readResult b).mapError .record
  ofRecords records

end ResultTree

end ContractHost
