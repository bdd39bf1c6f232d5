import ContractHost.Program
/-!
# Records of call trees

A call tree is recorded with a node for every frame that was asked for, also the refused ones: the result that is
reported, and for a frame that ran, what it was and what it asked and was told.
-/
namespace ContractHost

/-- A request with its reply. -/
structure Exchange where
  request : Request
  reply : Reply
  /-- Whether a nested frame was recorded for it. -/
  nested : Bool
  deriving DecidableEq

/-- How a frame ran. -/
structure Passage where
  contract : Address
  caller : Address
  invocation : Invocation
  code : Bytes
  /-- What the program asked and was told, in order. -/
  exchanges : List Exchange
  ending : Ending Output
  deriving DecidableEq

/-- A frame that was asked for. -/
structure FrameRecord where
  /-- What is reported about the frame. -/
  result : FrameResult
  status : Status
  /-- How it ran; a refused frame did not. -/
  passage : Option Passage
  deriving DecidableEq

/-- What the program of a frame asked and was told; that of a refused frame asked nothing. -/
def FrameRecord.exchanges (r : FrameRecord) : List Exchange :=
  (r.passage.map Passage.exchanges).getD []

/-- The record of a call tree. The nested frames stand in the order in which they were asked for. -/
abbrev CallRecord := Tree FrameRecord

def Action.truncate (bound : Nat) (a : Action) : Action :=
  { a with args := a.args.take bound }

namespace CallRecord

def result (t : CallRecord) : ResultTree :=
  t.map FrameRecord.result

def gasUsed (t : CallRecord) : Gas :=
  t.label.result.gasUsed

def success (t : CallRecord) : Bool :=
  t.label.result.success

mutual

/-- The frames that succeeded together with all frames around them, an outer one first. Only their writes are kept. -/
def committed : CallRecord → List FrameRecord
  | .node r below => if r.result.success then r :: committedAll below else []

/-- The frames that are kept of call trees next to each other. -/
def committedAll : List CallRecord → List FrameRecord
  | [] => []
  | t :: ts => committed t ++ committedAll ts

end

/-- The record of a frame that was refused. It forfeits its whole gas limit. -/
def refused (bound : Nat) (action : Action) (why : Refusal) : CallRecord :=
  .node
    { result := (ResultTree.refused (action.truncate bound) why.message action.gasLimit).label
      status := .contractError, passage := none } []

end CallRecord

end ContractHost
