import ContractHost.Host
/-!
# Orders

What an account can ask of a host, in one type, so that a statement about every order needs one form.
-/
namespace ContractHost

/-- What an account can order. -/
inductive Order where
  | execute (o : ExecuteOrder)
  | deploy (o : DeployOrder)
  deriving DecidableEq

namespace Order

def check (limits : InputLimits) : Order → Except HostError Unit
  | execute o => o.check limits
  | deploy o => o.check limits

/-- The scope of the outermost frame in a world, or why it is refused. -/
def scope {W : Type} [World W] (config : Config) (store : Store) (world : W) : Order → Except Refusal (Scope W)
  | execute o => o.scope config store world
  | deploy o => o.scope config store world

def invocation : Order → Invocation
  | execute o => o.invocation
  | deploy o => o.invocation

def amount : Order → Amount
  | execute o => o.amount
  | deploy o => o.amount

/-- The account that gives the order and pays for it. -/
def caller : Order → Address
  | execute o => o.caller
  | deploy o => o.caller

def gasLimit : Order → Gas
  | execute o => o.gasLimit
  | deploy o => o.gasLimit

/-- Where the order puts a contract, if it does. -/
def deployed : Order → Option Address
  | execute _ => none
  | deploy o => some o.address

end Order

namespace Host

def outermost {W : Type} [World W] (h : Host) (order : Order) (scope : Scope W) : FrameOutcome W :=
  runFrame h.vm h.config h.config.maxCallDepth.toNat scope h.stack order.invocation order.amount order.gasLimit

/-- Carries out an order. -/
def carryOut (h : Host) (store : Store) : Order → Completion
  | .execute o => h.execute store o
  | .deploy o => h.deploy store o

theorem carryOut_def (h : Host) (store : Store) (order : Order) :
    h.carryOut store order =
      match order.check h.config.limits with
      | .error e => { answer := .error e, store, record := none }
      | .ok _ =>
        h.run store (order.scope h.config store (Layers.ofLedger store.ledger)) order.invocation order.amount
          order.gasLimit order.deployed := by
  cases order <;> rfl

end Host

/-! ## Orders in place

The plain account of an order: there is one ledger, and every write changes it at once. Before a frame gets its payment
and its code the ledger is kept as it stands, and if the frame fails the ledger goes back to that. No overlay occurs.
-/

namespace Host

/-- The ledger after the outermost frame, which is the old one again if the frame has failed. -/
def settleInPlace (store : Store) (outcome : FrameOutcome Ledger) (deployed : Option Address) : Completion :=
  let record := some outcome.record
  if outcome.record.success then
    let events := outcome.world.events.drop store.ledger.events.length
    { answer := .ok (outcome.tell events deployed), store := { store with ledger := outcome.world }, record }
  else { answer := .ok (outcome.tell [] none), store, record }

/-- Carries out an order on the ledger itself. -/
def carryOutInPlace (h : Host) (store : Store) (order : Order) : Completion :=
  match order.check h.config.limits with
  | .error e => { answer := .error e, store, record := none }
  | .ok _ =>
    match order.scope h.config store store.ledger with
    | .error why => h.refuse store (order.invocation.action order.amount order.gasLimit) why
    | .ok scope => settleInPlace store (h.outermost order scope) order.deployed

end Host

end ContractHost
