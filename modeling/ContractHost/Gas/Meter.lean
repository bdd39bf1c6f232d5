import ContractHost.HostError
/-!
# Prices and meters

Reads are paid for by the bytes of the value, writes and removals by those of the key, events by those of the name and
the arguments. A transfer has one price. Programs price their own instructions.

A meter counts what a frame has consumed against a limit. A charge that would cross the limit fails and pins the
consumption to the limit. The frame's program may move the limit, but never above the budget that the frame was created
with.
-/
namespace ContractHost

/-- The prices of host operations. -/
structure GasSchedule where
  readPerByte : Gas := 1
  writePerByte : Gas := 1
  removePerByte : Gas := 1
  transfer : Gas := 0
  eventPerByte : Gas := 0
  deriving DecidableEq

namespace GasSchedule

def read (s : GasSchedule) (length : Nat) : Gas :=
  Gas.times s.readPerByte length

def write (s : GasSchedule) (length : Nat) : Gas :=
  Gas.times s.writePerByte length

def remove (s : GasSchedule) (length : Nat) : Gas :=
  Gas.times s.removePerByte length

def event (s : GasSchedule) (length : Nat) : Gas :=
  Gas.times s.eventPerByte length

end GasSchedule

/-- The consumption of a frame. -/
structure Meter where
  limit : Gas
  /-- The budget of the frame. -/
  cap : Gas
  consumed : Gas
  deriving DecidableEq

namespace Meter

def ofLimit (limit : UInt64) : Meter :=
  { limit, cap := limit, consumed := 0 }

/-- Charges an amount of gas, or says why it cannot be charged; the meter changes in either case. -/
def charge (m : Meter) (amount : UInt64) : Except HostError Unit × Meter :=
  let refused := (.error (.outOfGas (Gas.plus m.consumed amount) m.limit), { m with consumed := m.limit })
  match Gas.plus? m.consumed amount with
  | some total => if total ≤ m.limit then (.ok (), { m with consumed := total }) else refused
  | none => refused

/-- Sets what may still be consumed. The program may have spent part of the budget on its own. -/
def setRemaining (m : Meter) (remaining : UInt64) : Meter :=
  { m with limit := Gas.least (Gas.plus m.consumed remaining) m.cap }

/-- What may still be consumed. -/
def remaining (m : Meter) : Gas :=
  Gas.minus m.limit m.consumed

def isExhausted (m : Meter) : Bool :=
  decide (m.limit ≤ m.consumed)

end Meter

end ContractHost
