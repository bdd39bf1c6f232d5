import ContractHost.Tree
import ContractHost.Wire.Reader
/-!
# The records that cross the boundary to a contract VM

Argument lists, actions and results as they are written, before their values are checked. Fields are written in the
order of their tags and left out if they are zero or empty. Reading takes them in any order: a number, text or byte
string that occurs again replaces the earlier one, a repeated action is merged into the earlier one, arguments and
nested results are collected.
-/
namespace ContractHost.Wire

/-! ## Argument lists -/

/-- An argument list: every argument is written, also an empty one. -/
def putArguments (args : List Bytes) : Bytes :=
  args.flatMap (putDelimited 1)

def argumentStep (depth : Nat) : Step (List Bytes) := fun k args input =>
  if k.tag = 1 then named "ProtoArgs" "args" do
    expect .delimited k.wireType
    let (b, rest) ← byteString input
    return (args ++ [b], rest)
  else ignore depth k args input

/-- How deep records may be nested. -/
def maxDepth : Nat := 100

def readArguments (input : List UInt8) : Except Error (List Bytes) :=
  record (argumentStep maxDepth) [] input

/-! ## Actions -/

structure ActionRecord where
  kind : UInt32 := 0
  amount : Bytes := []
  method : String := ""
  args : Bytes := []
  gasLimit : UInt64 := 0
  deriving DecidableEq

def putAction (a : ActionRecord) : Bytes :=
  putNumber 1 a.kind.toNat ++ putBytes 2 a.amount ++ putText 3 a.method ++ putBytes 4 a.args ++
    putNumber 5 a.gasLimit.toNat

def actionStep (depth : Nat) : Step ActionRecord := fun k a input =>
  if k.tag = 1 then named "ProtoAction" "action_type" do
    expect .varint k.wireType
    let (n, rest) ← varint input
    return ({ a with kind := UInt32.ofNat n }, rest)
  else if k.tag = 2 then named "ProtoAction" "amount" do
    expect .delimited k.wireType
    let (b, rest) ← byteString input
    return ({ a with amount := b }, rest)
  else if k.tag = 3 then named "ProtoAction" "method" do
    expect .delimited k.wireType
    let (s, rest) ← text input
    return ({ a with method := s }, rest)
  else if k.tag = 4 then named "ProtoAction" "args" do
    expect .delimited k.wireType
    let (b, rest) ← byteString input
    return ({ a with args := b }, rest)
  else if k.tag = 5 then named "ProtoAction" "gas_limit" do
    expect .varint k.wireType
    let (n, rest) ← varint input
    return ({ a with gasLimit := UInt64.ofNat n }, rest)
  else ignore depth k a input

def readAction (input : List UInt8) : Except Error ActionRecord :=
  record (actionStep maxDepth) {} input

/-! ## Results -/

/-- A result as written, without the results nested in it. -/
structure ResultRecord where
  action : Option ActionRecord := none
  success : Bool := false
  error : String := ""
  gasUsed : UInt64 := 0
  output : Bytes := []
  remaining : Bytes := []
  deriving DecidableEq

/-- The fields of a result before the nested results. -/
def putResultFields (r : ResultRecord) : Bytes :=
  (match r.action with
    | some a => putDelimited 1 (putAction a)
    | none => []) ++
  putNumber 2 r.success.toNat ++ putText 3 r.error ++ putNumber 4 r.gasUsed.toNat ++ putBytes 5 r.output ++
    putBytes 6 r.remaining

mutual

def putResult : Tree ResultRecord → Bytes
  | .node r nested => putResultFields r ++ putNested nested

def putNested : List (Tree ResultRecord) → Bytes
  | [] => []
  | t :: ts => putDelimited 7 (putResult t) ++ putNested ts

end

/-- Merges a field of a result; `depth` more levels of records may be nested in it. -/
def resultStep : Nat → Step (Tree ResultRecord)
  | depth, k, .node r nested, input =>
    if k.tag = 1 then named "ProtoActionResult" "input_action" do
      expect .delimited k.wireType
      match depth with
      | 0 => fail .nesting
      | inner + 1 =>
        let (a, rest) ← embedded (actionStep inner) (r.action.getD {}) input
        return (.node { r with action := some a } nested, rest)
    else if k.tag = 2 then named "ProtoActionResult" "success" do
      expect .varint k.wireType
      let (n, rest) ← varint input
      return (.node { r with success := n ≠ 0 } nested, rest)
    else if k.tag = 3 then named "ProtoActionResult" "error" do
      expect .delimited k.wireType
      let (s, rest) ← text input
      return (.node { r with error := s } nested, rest)
    else if k.tag = 4 then named "ProtoActionResult" "gas_used" do
      expect .varint k.wireType
      let (n, rest) ← varint input
      return (.node { r with gasUsed := UInt64.ofNat n } nested, rest)
    else if k.tag = 5 then named "ProtoActionResult" "output_data" do
      expect .delimited k.wireType
      let (b, rest) ← byteString input
      return (.node { r with output := b } nested, rest)
    else if k.tag = 6 then named "ProtoActionResult" "remain_gas_cost" do
      expect .delimited k.wireType
      let (b, rest) ← byteString input
      return (.node { r with remaining := b } nested, rest)
    else if k.tag = 7 then named "ProtoActionResult" "sub_action_results" do
      expect .delimited k.wireType
      match depth with
      | 0 => fail .nesting
      | inner + 1 =>
        let (t, rest) ← embedded (resultStep inner) (.node {} []) input
        return (.node r (nested ++ [t]), rest)
    else ignore depth k (.node r nested) input

def readResult (input : List UInt8) : Except Error (Tree ResultRecord) :=
  record (resultStep maxDepth) (.node {} []) input

end ContractHost.Wire
