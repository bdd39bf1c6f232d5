import ContractHost.Config
import ContractHost.Text.Json.Record
import ContractHost.Text.Toml
import ContractHost.Text.Toml.Reader
/-!
# Configuration files

A configuration is a record whose fields all have defaults, so any of them may be left out. A configuration file is a TOML
document. Its path must not climb out of its directory, which is checked before the file is touched, and a configuration
that was read is validated.
-/
namespace ContractHost

/-! ## Configurations as documents -/

namespace GasSchedule

def toJson (s : GasSchedule) : Json :=
  .object
    [("storage_read_per_byte", Json.ofNat s.readPerByte.toNat),
     ("storage_write_per_byte", Json.ofNat s.writePerByte.toNat),
     ("storage_remove_per_byte", Json.ofNat s.removePerByte.toNat), ("transfer", Json.ofNat s.transfer.toNat),
     ("event_per_byte", Json.ofNat s.eventPerByte.toNat)]

def ofJson? (p : Json.Positions) (j : Json) : Option GasSchedule := do
  match ← Json.fields? p
      ["storage_read_per_byte", "storage_write_per_byte", "storage_remove_per_byte", "transfer",
       "event_per_byte"] j with
  | [read, write, remove, transfer, event] =>
    let blank : GasSchedule := {}
    let readPerByte ← Json.orElse blank.readPerByte Json.asWord read
    let writePerByte ← Json.orElse blank.writePerByte Json.asWord write
    let removePerByte ← Json.orElse blank.removePerByte Json.asWord remove
    let transfer ← Json.orElse blank.transfer Json.asWord transfer
    let eventPerByte ← Json.orElse blank.eventPerByte Json.asWord event
    return { readPerByte, writePerByte, removePerByte, transfer, eventPerByte }
  | _ => none

end GasSchedule

namespace InputLimits

def toJson (l : InputLimits) : Json :=
  .object (l.named.map fun (name, bound) => (name, Json.ofNat bound.toNat))

def ofJson? (p : Json.Positions) (j : Json) : Option InputLimits := do
  let blank : InputLimits := {}
  match ← Json.fields? p (blank.named.map Prod.fst) j with
  | [key, value, code, args, amount, text] =>
    let storageKey ← Json.orElse blank.storageKey Json.asWord key
    let storageValue ← Json.orElse blank.storageValue Json.asWord value
    let code ← Json.orElse blank.code Json.asWord code
    let args ← Json.orElse blank.args Json.asWord args
    let amount ← Json.orElse blank.amount Json.asWord amount
    let text ← Json.orElse blank.text Json.asWord text
    return { storageKey, storageValue, code, args, amount, text }
  | _ => none

end InputLimits

namespace Logging

def toJson (l : Logging) : Json :=
  .object [("level", .text l.level), ("format", .text l.format)]

def ofJson? (p : Json.Positions) (j : Json) : Option Logging := do
  match ← Json.fields? p ["level", "format"] j with
  | [level, format] =>
    let blank : Logging := {}
    let level ← Json.orElse blank.level Json.asText level
    let format ← Json.orElse blank.format Json.asText format
    return { level, format }
  | _ => none

end Logging

namespace Config

def toJson (c : Config) : Json :=
  .object
    [("max_call_depth", Json.ofNat c.maxCallDepth.toNat), ("max_args_length", Json.ofNat c.maxArgsLength.toNat),
     ("allow_reentrancy", .bool c.allowReentrancy), ("gas", c.gas.toJson), ("limits", c.limits.toJson),
     ("logging", c.logging.toJson)]

def ofJson? (p : Json.Positions) (j : Json) : Option Config := do
  match ← Json.fields? p
      ["max_call_depth", "max_args_length", "allow_reentrancy", "gas", "limits", "logging"] j with
  | [depth, args, reentrancy, gas, limits, logging] =>
    let blank : Config := {}
    let maxCallDepth ← Json.orElse blank.maxCallDepth Json.asWord depth
    let maxArgsLength ← Json.orElse blank.maxArgsLength Json.asWord args
    let allowReentrancy ← Json.orElse blank.allowReentrancy Json.asBool reentrancy
    let gas ← Json.orElse blank.gas (GasSchedule.ofJson? p) gas
    let limits ← Json.orElse blank.limits (InputLimits.ofJson? p) limits
    let logging ← Json.orElse blank.logging (Logging.ofJson? p) logging
    return { maxCallDepth, maxArgsLength, allowReentrancy, gas, limits, logging }
  | _ => none

end Config

/-! ## Files -/

namespace Config

def climbs : List Char → Bool
  | '.' :: '.' :: _ => true
  | _ :: rest => climbs rest
  | [] => false

def checkPath (path : String) : Except ConfigError Unit :=
  if climbs path.toList then .error .traversal else .ok ()

/-- The text of a configuration file. There is none if a number is too large for the format. -/
def toText? (config : Config) : Option String :=
  match config.toJson with
  | .object members => Toml.document? members
  | _ => none

def ofText? (text : String) : Option Config :=
  (Toml.parse? text).bind (ofJson? .any)

/-- Loads the configuration from the file at a path with this content, `none` if it cannot be read. -/
def load (path : String) (content : Option String) : Except ConfigError Config := do
  checkPath path
  match content with
  | none => .error .unreadable
  | some text =>
    match ofText? text with
    | none => .error .malformed
    | some config => do
      config.validate
      return config

/-- The text with which a configuration is saved at a path. -/
def save (path : String) (writable : Bool) (config : Config) : Except ConfigError String := do
  checkPath path
  match config.toText? with
  | none => .error .unwritableNumber
  | some text => if writable then return text else .error .unwritable

end Config

end ContractHost
