import ContractHost.Gas.Meter
/-!
# Configuration of a host

The prices of host operations, the largest sizes of inputs and the bounds of a call tree. Byte strings that reach the host
are checked against a limit each.
-/
namespace ContractHost

/-- The largest sizes of inputs. -/
structure InputLimits where
  storageKey : UInt64 := 131072
  storageValue : UInt64 := 131072
  code : UInt64 := 1048576
  /-- Packed argument lists. -/
  args : UInt64 := 10240
  amount : UInt64 := 32
  /-- Names of methods and events, messages and nonces. -/
  text : UInt64 := 4096
  deriving DecidableEq

namespace InputLimits

def check (what : String) (b : List UInt8) (bound : UInt64) : Except HostError Unit :=
  if bound.toNat < b.length then .error (.tooLong what b.length bound.toNat) else .ok ()

/-- The limits with their names in configuration files. -/
def named (l : InputLimits) : List (String × UInt64) :=
  [("max_storage_key", l.storageKey), ("max_storage_value", l.storageValue), ("max_code", l.code),
   ("max_args", l.args), ("max_amount", l.amount), ("max_string", l.text)]

end InputLimits

structure Logging where
  /-- Which messages are logged. -/
  level : String := "info"
  /-- How they are written. -/
  format : String := "pretty"
  deriving DecidableEq

/-- The configuration of a host. -/
structure Config where
  /-- The most frames on one call stack. -/
  maxCallDepth : UInt64 := 64
  /-- The argument bytes that are kept at every node of a result tree. -/
  maxArgsLength : UInt64 := 100
  /-- Whether a contract may be entered while it runs. -/
  allowReentrancy : Bool := true
  gas : GasSchedule := {}
  limits : InputLimits := {}
  logging : Logging := {}
  deriving DecidableEq

inductive ConfigError where
  | noCallDepth
  | noArgs
  /-- A limit is zero. -/
  | zeroLimit (name : String)
  /-- A path leads out of its directory. -/
  | traversal
  /-- The file cannot be read. -/
  | unreadable
  /-- The file is not a configuration. -/
  | malformed
  /-- A number is too large for the file format. -/
  | unwritableNumber
  /-- The file cannot be written. -/
  | unwritable
  deriving DecidableEq

def ConfigError.message : ConfigError → String
  | .noCallDepth => "max_call_depth must be at least 1"
  | .noArgs => "max_args_length must be at least 1"
  | .zeroLimit name => "limits." ++ name ++ " cannot be 0"
  | .traversal => "Invalid path: directory traversal detected"
  | .unreadable => "Failed to read config file"
  | .malformed => "Failed to parse config file"
  | .unwritableNumber => "Failed to serialize config"
  | .unwritable => "Failed to write config file"

namespace Config

/-- Refuses a configuration with which nothing could run; the first fault counts. -/
def validate (c : Config) : Except ConfigError Unit :=
  if c.maxCallDepth = 0 then .error .noCallDepth
  else if c.maxArgsLength = 0 then .error .noArgs
  else match c.limits.named.find? fun (_, bound) => bound = 0 with
    | some (name, _) => .error (.zeroLimit name)
    | none => .ok ()

end Config

end ContractHost
