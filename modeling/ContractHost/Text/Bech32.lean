import ContractHost.Bytes
/-!
# Bech32m text

A human-readable part, the separator `1`, and symbols of five bits, the last six of which are a checksum. The checksum
is the remainder of a polynomial code; a text is written with the constant of the second edition of the format and
read with the constant of either edition.
-/
namespace ContractHost.Bech32

/-- A character of the data part. -/
abbrev Symbol := BitVec 5

/-- A remainder of the checksum code. -/
abbrev Residue := BitVec 30

inductive Error where
  /-- A character, the case, the separator or the human-readable part is wrong. -/
  | malformed
  /-- The checksum is wrong, or the text is too long or too short to have one. -/
  | checksum
  deriving DecidableEq, Repr

/-- What is reported about a text that is not in the format. -/
def Error.message : Error → String
  | .malformed => "parsing failed"
  | .checksum => "no valid bech32 or bech32m checksum"

def alphabet : List Char :=
  ['q', 'p', 'z', 'r', 'y', '9', 'x', '8', 'g', 'f', '2', 't', 'v', 'd', 'w', '0',
   's', '3', 'j', 'n', '5', '4', 'k', 'h', 'c', 'e', '6', 'm', 'u', 'a', '7', 'l']

def letter (s : Symbol) : Char :=
  alphabet.getD s.toNat 'q'

/-- The symbol of a character of either case. -/
def symbol? (c : Char) : Option Symbol :=
  (alphabet.idxOf? c.toLower).map (BitVec.ofNat 5)

/-- What the five bits that leave the residue add to it. -/
def carry (r : Residue) : Residue :=
  let generators : List (Nat × Residue) :=
    [(25, 0x3b6a57b2), (26, 0x26508e6d), (27, 0x1ea119fa), (28, 0x3d4233dd), (29, 0x2a1462b3)]
  generators.foldl (fun acc (i, g) => if r.getLsbD i then acc ^^^ g else acc) 0

/-- The residue after one more symbol. -/
def feed (r : Residue) (s : Symbol) : Residue :=
  (r <<< 5 ^^^ s.setWidth 30) ^^^ carry r

/-- The human-readable part as symbols: high bits, a zero, low bits. -/
def expand (hrp : List Char) : List Symbol :=
  let codes := hrp.map fun c => c.toLower.toNat
  codes.map (fun n => BitVec.ofNat 5 (n / 32)) ++ 0 :: codes.map (fun n => BitVec.ofNat 5 (n % 32))

/-- The residue of a human-readable part and the symbols after the separator. -/
def residue (hrp : List Char) (symbols : List Symbol) : Residue :=
  (expand hrp ++ symbols).foldl feed 1

/-- The residue of every text of the first edition. -/
def firstEdition : Residue := 1

/-- The residue of every text of the second edition. -/
def secondEdition : Residue := 0x2bc830a3

/-- The six symbols that bring the residue to the constant of the second edition. -/
def checksum (hrp : List Char) (symbols : List Symbol) : List Symbol :=
  let r := residue hrp (symbols ++ List.replicate 6 0) ^^^ secondEdition
  [25, 20, 15, 10, 5, 0].map fun i => (r >>> i).setWidth 5

def bits (width n : Nat) : List Bool :=
  (List.range width).reverse.map n.testBit

def ofBits (bs : List Bool) : Nat :=
  bs.foldl (fun n b => 2 * n + b.toNat) 0

/-- Bytes as symbols; the last symbol is filled up with zero bits. -/
def toSymbols (b : List UInt8) : List Symbol :=
  (pieces 5 (b.flatMap fun x => bits 8 x.toNat)).map fun run =>
    BitVec.ofNat 5 (ofBits (run ++ List.replicate (5 - run.length) false))

/-- Symbols as bytes; bits that do not fill a byte are dropped. -/
def ofSymbols (symbols : List Symbol) : Bytes :=
  ((pieces 8 (symbols.flatMap fun s => bits 5 s.toNat)).filter fun run => run.length = 8).map fun run =>
    UInt8.ofNat (ofBits run)

/-- The text of a human-readable part and bytes. -/
def encode (hrp : List Char) (b : List UInt8) : String :=
  let symbols := toSymbols b
  String.ofList (hrp ++ '1' :: (symbols ++ checksum hrp symbols).map letter)

def mixesCase (cs : List Char) : Bool :=
  cs.any Char.isUpper && cs.any Char.isLower

/-- Whether a human-readable part has one to 83 printable ASCII characters. -/
def validHrp (hrp : List Char) : Bool :=
  0 < hrp.length && hrp.length ≤ 83 && hrp.all fun c => 33 ≤ c.toNat && c.toNat ≤ 126

/-- The human-readable part and the symbols of a text whose checksum is not looked at. The last `1` separates them. -/
def split? (cs : List Char) : Option (List Char × List Symbol) :=
  let backwards := cs.reverse
  match backwards.dropWhile (· ≠ '1') with
  | [] => none
  | _ :: front =>
    let hrp := front.reverse
    if mixesCase cs || !validHrp hrp then none
    else ((backwards.takeWhile (· ≠ '1')).reverse.mapM symbol?).map fun symbols => (hrp, symbols)

/-- The human-readable part and the bytes of a text. -/
def decode (s : String) : Except Error (List Char × Bytes) :=
  match split? s.toList with
  | none => .error .malformed
  | some (hrp, symbols) =>
    let r := residue hrp symbols
    if s.toList.length ≤ 1023 ∧ 6 ≤ symbols.length ∧ (r = secondEdition ∨ r = firstEdition) then
      .ok (hrp, ofSymbols (symbols.take (symbols.length - 6)))
    else .error .checksum

end ContractHost.Bech32
