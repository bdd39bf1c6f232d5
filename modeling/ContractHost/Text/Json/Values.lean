import ContractHost.Text.Json.Record
import ContractHost.Ledger
/-!
# Domain values in JSON

Addresses, digests and amounts are written as their texts, byte strings as lists of numbers.
-/
namespace ContractHost

def Json.asForm {α : Type} (read : String → Except FormatError α) (j : Json) : Option α :=
  match Json.asText j with
  | some s => (read s).toOption
  | none => none

namespace Address

def toJson (a : Address) : Json :=
  .text a.text

def ofJson? : Json → Option Address :=
  Json.asForm ofText

end Address

namespace Digest

def toJson (d : Digest) : Json :=
  .text d.text

def ofJson? : Json → Option Digest :=
  Json.asForm ofText

end Digest

namespace Amount

def toJson (a : Nat) : Json :=
  .text (text a)

def ofJson? : Json → Option Amount :=
  Json.asForm ofText

end Amount

namespace Event

def toJson (e : Event) : Json :=
  .object
    [("contract", e.contract.toJson), ("name", .text e.name), ("args", .list (e.args.map Json.ofBytes))]

def ofJson? (j : Json) : Option Event := do
  match ← Json.fields? .exact ["contract", "name", "args"] j with
  | [contract, name, args] =>
    let contract ← Json.need Address.ofJson? contract
    let name ← Json.need Json.asText name
    let args ← Json.need (Json.asList Json.asBytes) args
    return { contract, name, args }
  | _ => none

end Event

namespace Chain

def timestamp? : Json → Option Int64
  | .int n => if -9223372036854775808 ≤ n ∧ n ≤ 9223372036854775807 then some (Int64.ofInt n) else none
  | _ => none

def toJson (c : Chain) : Json :=
  .object
    [("block_number", Json.ofNat c.blockNumber.toNat), ("block_timestamp", .int c.blockTimestamp.toInt),
     ("min_fee_per_gas", Amount.toJson c.minFeePerGas), ("block_seed", Json.ofBytes c.blockSeed),
     ("network_size", Json.ofNat c.networkSize.toNat), ("epoch", Json.ofNat c.epoch.toNat)]

def ofJson? (j : Json) : Option Chain := do
  match ← Json.fields? .exact
      ["block_number", "block_timestamp", "min_fee_per_gas", "block_seed", "network_size", "epoch"] j with
  | [number, timestamp, fee, seed, size, epoch] =>
    let blockNumber ← Json.need Json.asWord number
    let blockTimestamp ← Json.need timestamp? timestamp
    let minFeePerGas ← Json.need Amount.ofJson? fee
    let blockSeed ← Json.need Json.asBytes seed
    let networkSize ← Json.need Json.asWord size
    let epoch ← Json.need (Json.asNat 65535) epoch
    return { blockNumber, blockTimestamp, minFeePerGas, blockSeed, networkSize, epoch := UInt16.ofNat epoch }
  | _ => none

end Chain

end ContractHost
