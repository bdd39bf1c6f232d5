import ContractHost.Text.Json.Reader
import ContractHost.Text.Json.Values
/-!
# Ledger snapshots

A snapshot is the indented JSON text of a whole ledger. Accounts stand in address order, a storage in key order, and
byte strings of accounts are hexadecimal. Reading checks the form of the whole text first and decodes byte strings
afterwards.
-/
namespace ContractHost.Snapshot

/-- An account whose byte strings are still texts. Storage is in the order of the keys' texts. -/
structure AccountText where
  address : Address
  balance : Amount
  code : Option String
  storage : OrderedMap Bytes String
  identityState : UInt8
  identity : Option String

def optionalHex : Option Bytes → Json
  | none => .null
  | some b => .text (Hex.encode b)

def accountJson : Address × Account → Json
  | (address, account) =>
    .object
      [("address", address.toJson), ("balance", Amount.toJson account.balance), ("code", optionalHex account.code),
       ("storage", .object (account.storage.toList.map fun (k, v) => (Hex.encode k, .text (Hex.encode v)))),
       ("identity_state", Json.ofNat account.identityState.toNat), ("identity", optionalHex account.identity)]

def toJson (l : Ledger) : Json :=
  .object
    [("chain", l.chain.toJson), ("accounts", .list (l.accounts.toList.map accountJson)),
     ("events", .list (l.events.map Event.toJson)), ("burnt", Amount.toJson l.burnt)]

/-- The snapshot of a ledger. -/
def save (l : Ledger) : String :=
  (toJson l).pretty

/-- Reads a storage. Of two equal keys the later one counts. -/
def storage? : Json → Option (OrderedMap Bytes String)
  | .object ms => do
    let entries ← ms.mapM fun (k, j) => (Json.asText j).map fun v => (Bytes.ofText k, v)
    return .ofList entries
  | _ => none

def accountText? (j : Json) : Option AccountText := do
  match ← Json.fields? .exact ["address", "balance", "code", "storage", "identity_state", "identity"] j with
  | [address, balance, code, storage, state, identity] =>
    let address ← Json.need Address.ofJson? address
    let balance ← Json.need Amount.ofJson? balance
    let code ← Json.optional Json.asText code
    let storage ← Json.need storage? storage
    let state ← Json.need (Json.asNat 255) state
    let identity ← Json.optional Json.asText identity
    return { address, balance, code, storage, identityState := UInt8.ofNat state, identity }
  | _ => none

/-- A snapshot whose byte strings are still texts. -/
structure LedgerText where
  chain : Chain
  accounts : List AccountText
  events : List Event
  burnt : Amount

def ledgerText? (j : Json) : Option LedgerText := do
  match ← Json.fields? .exact ["chain", "accounts", "events", "burnt"] j with
  | [chain, accounts, events, burnt] =>
    let chain ← Json.need Chain.ofJson? chain
    let accounts ← Json.need (Json.asList accountText?) accounts
    let events ← Json.need (Json.asList Event.ofJson?) events
    let burnt ← Json.need Amount.ofJson? burnt
    return { chain, accounts, events, burnt }
  | _ => none

def bytes (codes : List UInt8) : Except LedgerError Bytes :=
  (Hex.decodeCodes codes).mapError .hex

def optionalBytes : Option String → Except LedgerError (Option Bytes)
  | none => .ok none
  | some s => do
    let b ← bytes (Bytes.ofText s)
    return some b

/-- Decodes the byte strings of an account: keys and values in order, then the code, then the identity. -/
def account (t : AccountText) : Except LedgerError Account := do
  let storage ← t.storage.toList.mapM fun (k, v) => do
    let k ← bytes k
    let v ← bytes (Bytes.ofText v)
    return (k, v)
  let code ← optionalBytes t.code
  let identity ← optionalBytes t.identity
  return { balance := t.balance, code, storage := .ofList storage, identityState := t.identityState, identity }

/-- The ledger of a snapshot, or why there is none. Of two accounts of one address the later one counts. -/
def load : Option String → Except LedgerError Ledger
  | none => .error .noSnapshot
  | some s =>
    match (Json.parse? s).bind ledgerText? with
    | none => .error .badSnapshot
    | some t => do
      let accounts ← t.accounts.mapM fun a => do
        let account ← account a
        return (a.address, account)
      return { chain := t.chain, accounts := .ofList accounts, events := t.events, burnt := t.burnt }

end ContractHost.Snapshot
