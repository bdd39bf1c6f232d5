import ContractHost.Bytes
import ContractHost.Text.Bech32
import ContractHost.Wire.Error
/-!
# Why something is not a value of the domain

Texts and byte strings from outside are read into addresses, digests, amounts, argument lists and actions. Here are the
causes that keep them from being read, and the one place with their wording.
-/
namespace ContractHost

/-- Why a text or a byte string is not a value of the domain. -/
inductive FormatError where
  /-- A text has none of the forms of an address. -/
  | addressForm (text : String)
  /-- The human-readable part of an address is another one. -/
  | addressPart (found : String)
  /-- An address has not 20 bytes. -/
  | addressLength (found : Nat)
  /-- A digest has not 32 bytes. -/
  | digestLength (found : Nat)
  /-- An amount takes more than 32 bytes. -/
  | amountSize (found : Nat)
  /-- A text is no decimal number. -/
  | amountText (text : String)
  /-- A text is not hexadecimal. -/
  | hex (cause : Hex.Error)
  /-- An address text is damaged. -/
  | bech32 (cause : Bech32.Error)
  /-- A number stands for no kind of action. -/
  | actionKind (found : UInt32)
  /-- An argument list starts with an unknown tag. -/
  | argumentTag (found : UInt8)
  /-- An argument list is damaged. -/
  | arguments (cause : Wire.Error)
  /-- A record is damaged. -/
  | record (cause : Wire.Error)
  /-- A result does not say what was asked for. -/
  | noAction
  deriving DecidableEq, Repr

def FormatError.message : FormatError → String
  | .addressForm text => "Invalid address format: " ++ text
  | .addressPart found => "Invalid address format: Invalid HRP: expected 'wh', got '" ++ found ++ "'"
  | .addressLength found => "Invalid address length: expected 20, got " ++ toString found
  | .digestLength found => "Invalid hash length: expected 32, got " ++ toString found
  | .amountSize found => "Amount too large: max 32 bytes, got " ++ toString found
  | .amountText text => "Invalid amount string: " ++ text
  | .hex cause => "Invalid hex: " ++ cause.message
  | .bech32 cause => "Bech32 error: " ++ cause.message
  | .actionKind found => "Unknown action type: " ++ toString found.toNat
  | .argumentTag found => "Invalid arguments: unknown format tag 0x" ++ Hex.encode [found]
  | .arguments cause => "Invalid arguments: " ++ cause.message
  | .record cause => "Decode error: " ++ cause.message
  | .noAction => "Decode error: missing input action"

end ContractHost
