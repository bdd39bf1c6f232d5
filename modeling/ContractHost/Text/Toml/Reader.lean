import ContractHost.Text.Json.Reader
/-!
# Reading TOML text

A TOML document is read into the JSON value with the same content. Floats are well-formed values that are not held,
and a moment is an object without members that anyone knows.

Every reader takes the characters that are left and returns a value with those after it.
-/
namespace ContractHost

/-! ## Numbers in scientific notation

A number with a fraction or an exponent is a list of decimal digits and a scale, the power of ten that the digits are
counted in. A binary float of 64 bits stands for it after rounding to nearest; from half a step above the greatest
float on, what it is rounded to is infinity.
-/

/-- The number that the digits denote, times ten to the scale. -/
structure Scientific where
  digits : List Nat
  scale : Int
  deriving DecidableEq

namespace Scientific

/-- The least number that is rounded to infinity, half a step above the greatest float. It has 309 places. -/
def bound : Nat :=
  Nat.pow 2 1024 - Nat.pow 2 970

/-- The number without leading zeros, which leaves no digits of zero. -/
def significant (x : Scientific) : List Nat :=
  x.digits.dropWhile (· = 0)

/-- Where the first digit that is not zero stands, counted from the point. -/
def places (x : Scientific) : Int :=
  x.significant.length + x.scale

/-- Whether a number is rounded to infinity. Of as many places as the bound, it reaches the bound if its whole part does,
because the bound is a whole number. -/
def isInfinite (x : Scientific) : Bool :=
  !x.significant.isEmpty &&
    (309 < x.places ||
      x.places = 309 && bound ≤ Radix.value 10 ((x.significant ++ List.replicate 309 0).take 309))

end Scientific

namespace Toml

abbrev Reader (α : Type) := List Char → Option (α × List Char)

/-! ## Blanks and comments -/

def skipBlanks (cs : List Char) : List Char :=
  cs.dropWhile fun c => c = ' ' || c = '\t'

def lineEnd? : List Char → Option (List Char)
  | '\n' :: rest => some rest
  | '\r' :: '\n' :: rest => some rest
  | _ => none

/-- Whether a character may stand in a comment or on a line in single quotes. -/
def isPrinting (c : Char) : Bool :=
  c = '\t' || (32 ≤ c.toNat && c.toNat ≠ 127)

/-- Skips blanks and a comment up to the end of the line. -/
def skipComment (cs : List Char) : List Char :=
  match skipBlanks cs with
  | '#' :: rest => rest.dropWhile isPrinting
  | rest => rest

/-- Skips blanks, comments and line ends, at most `rounds` lines. -/
def skipLinesFor : Nat → List Char → List Char
  | 0, cs => cs
  | rounds + 1, cs =>
    let rest := skipComment cs
    match lineEnd? rest with
    | some rest => skipLinesFor rounds rest
    | none => rest

def skipLines (cs : List Char) : List Char :=
  skipLinesFor (cs.length + 1) cs

/-! ## Texts -/

def hexCode (n : Nat) : Reader Nat := fun cs =>
  let ds := cs.take n
  if ds.length < n then none
  else (ds.mapM Json.hexDigit?).map fun vs => (Radix.value 16 vs, cs.drop n)

/-- The character of a code that has to be a scalar value. -/
def charOf? (n : Nat) : Option Char :=
  if n < 0xD800 ∨ (0xDFFF < n ∧ n < 0x110000) then some (Char.ofNat n) else none

def shortEscape? (c : Char) : Option Char :=
  if c = 'b' then some (Char.ofNat 8)
  else if c = 't' then some '\t'
  else if c = 'n' then some '\n'
  else if c = 'f' then some (Char.ofNat 12)
  else if c = 'r' then some '\r'
  else if c = '"' then some '"'
  else if c = '\\' then some '\\'
  else none

def escape : Reader Char
  | 'u' :: rest => do
    let (n, rest) ← hexCode 4 rest
    let c ← charOf? n
    return (c, rest)
  | 'U' :: rest => do
    let (n, rest) ← hexCode 8 rest
    let c ← charOf? n
    return (c, rest)
  | c :: rest => (shortEscape? c).map fun c => (c, rest)
  | [] => none

/-- Skips blanks and line ends, at most `rounds` lines. -/
def skipEmptyFor : Nat → List Char → List Char
  | 0, cs => cs
  | rounds + 1, cs =>
    let rest := skipBlanks cs
    match lineEnd? rest with
    | some rest => skipEmptyFor rounds rest
    | none => rest

/-- Skips a line end that was escaped, with all blanks and line ends after it. -/
def skipFold (cs : List Char) : Option (List Char) :=
  (lineEnd? (skipBlanks cs)).map fun rest => skipEmptyFor (rest.length + 1) rest

def basicFor : Nat → List Char → Reader (List Char)
  | 0, _, _ => none
  | rounds + 1, read, cs =>
    match cs with
    | [] => none
    | '"' :: rest => some (read.reverse, rest)
    | '\\' :: rest => do
      let (c, rest) ← escape rest
      basicFor rounds (c :: read) rest
    | c :: rest => if isPrinting c then basicFor rounds (c :: read) rest else none

def literalFor : Nat → List Char → Reader (List Char)
  | 0, _, _ => none
  | rounds + 1, read, cs =>
    match cs with
    | [] => none
    | '\'' :: rest => some (read.reverse, rest)
    | c :: rest => if isPrinting c then literalFor rounds (c :: read) rest else none

/-- Ends a text on several lines at a run of quotes: the last three end it, one or two before them belong to it. -/
def closeLines (q : Char) (read : List Char) (cs : List Char) : Option (Option (List Char × List Char)) :=
  let run := (cs.takeWhile (· = q)).length
  if run < 3 then some none
  else if 5 < run then none
  else some (some (read.reverse ++ List.replicate (run - 3) q, cs.drop run))

/-- Reads a text on several lines, behind the quotes; `escapes` tells double quotes from single ones. -/
def linesFor (escapes : Bool) (q : Char) : Nat → List Char → Reader (List Char)
  | 0, _, _ => none
  | rounds + 1, read, cs =>
    match cs with
    | [] => none
    | c :: rest =>
      if c = q then
        match closeLines q read cs with
        | none => none
        | some (some done) => some done
        | some none => linesFor escapes q rounds (c :: read) rest
      else match lineEnd? cs with
        | some rest => linesFor escapes q rounds ('\n' :: read) rest
        | none =>
          if c = '\\' ∧ escapes then
            match skipFold rest with
            | some rest => linesFor escapes q rounds read rest
            | none => do
              let (c, rest) ← escape rest
              linesFor escapes q rounds (c :: read) rest
          else if isPrinting c then linesFor escapes q rounds (c :: read) rest
          else none

/-- A line end right behind the opening quotes does not belong to the text. -/
def dropOpening (cs : List Char) : List Char :=
  (lineEnd? cs).getD cs

def quoted : Reader (List Char)
  | '"' :: '"' :: '"' :: rest => linesFor true '"' (rest.length + 1) [] (dropOpening rest)
  | '\'' :: '\'' :: '\'' :: rest => linesFor false '\'' (rest.length + 1) [] (dropOpening rest)
  | '"' :: rest => basicFor (rest.length + 1) [] rest
  | '\'' :: rest => literalFor (rest.length + 1) [] rest
  | _ => none

/-! ## Keys -/

def isBare (c : Char) : Bool :=
  c.isAlphanum || c = '-' || c = '_'

def keyPart (cs : List Char) : Option (String × List Char) :=
  match cs with
  | '"' :: rest => (basicFor (rest.length + 1) [] rest).map fun (k, rest) => (String.ofList k, rest)
  | '\'' :: rest => (literalFor (rest.length + 1) [] rest).map fun (k, rest) => (String.ofList k, rest)
  | _ =>
    let k := cs.takeWhile isBare
    if k.isEmpty then none else some (String.ofList k, cs.dropWhile isBare)

/-- Reads the parts of a key, at most `parts`, with dots between them. -/
def keyFor : Nat → Reader (List String)
  | 0, _ => none
  | parts + 1, cs => do
    let (k, rest) ← keyPart (skipBlanks cs)
    match skipBlanks rest with
    | '.' :: rest =>
      let (ks, rest) ← keyFor parts rest
      return (k :: ks, rest)
    | rest => return ([k], rest)

/-- How many lists and tables may stand inside each other, and how many parts a key may have. -/
def maxDepth : Nat := 79

def key : Reader (List String) :=
  keyFor maxDepth

/-! ## Numbers and moments -/

/-- The digits of a number without the underscores, each of which has to stand between two digits. -/
def digits? (isDigit : Char → Bool) (cs : List Char) : Option (List Char) :=
  let rec go : Bool → List Char → Option (List Char)
    | afterDigit, [] => if afterDigit then some [] else none
    | afterDigit, c :: rest =>
      if c = '_' then if afterDigit then go false rest else none
      else if isDigit c then (go true rest).map (c :: ·)
      else none
  go false cs

def digitsIn? (base : Nat) (cs : List Char) : Option (List Nat) :=
  match digits? (fun c => match Json.hexDigit? c with | some d => d < base | none => false) cs with
  | none => none
  | some ds => ds.mapM Json.hexDigit?

def inBase? (base : Nat) (cs : List Char) : Option Nat :=
  (digitsIn? base cs).map (Radix.value base)

/-- Whether digits start with a zero that says nothing. -/
def hasIdleZero : List Char → Bool
  | '0' :: _ :: _ => true
  | _ => false

def unsigned : List Char → Bool × List Char
  | '-' :: cs => (true, cs)
  | '+' :: cs => (false, cs)
  | cs => (false, cs)

def integer? (cs : List Char) : Option Int :=
  match cs with
  | '0' :: 'x' :: ds => (inBase? 16 ds).bind fun n => inRange n
  | '0' :: 'o' :: ds => (inBase? 8 ds).bind fun n => inRange n
  | '0' :: 'b' :: ds => (inBase? 2 ds).bind fun n => inRange n
  | _ =>
    let (negative, ds) := unsigned cs
    if hasIdleZero ds then none
    else (inBase? 10 ds).bind fun n => inRange (if negative then -n else n)
where
  /-- The number if it takes at most 64 bits with its sign. -/
  inRange (n : Int) : Option Int :=
    if -9223372036854775808 ≤ n ∧ n ≤ 9223372036854775807 then some n else none

def exponent? : List Char → Option Int
  | [] => some 0
  | e :: cs =>
    let (negative, ds) := unsigned cs
    if e = 'e' || e = 'E' then
      (inBase? 10 ds).map fun n => if negative then -(n : Int) else n
    else none

/-- Reads a number with a fraction, an exponent or both, without sign. -/
def scientific? (cs : List Char) : Option Scientific :=
  let isPart (c : Char) : Bool := c.isDigit || c = '_'
  let whole := cs.takeWhile isPart
  if hasIdleZero whole then none
  else do
    let ws ← digitsIn? 10 whole
    match cs.dropWhile isPart with
    | [] => none
    | '.' :: rest =>
      let fs ← digitsIn? 10 (rest.takeWhile isPart)
      let e ← exponent? (rest.dropWhile isPart)
      return ⟨ws ++ fs, e - fs.length⟩
    | rest =>
      let e ← exponent? rest
      return ⟨ws, e⟩

/-- Whether a word is a float. A positive number must not be rounded to infinity; a negative one may be of any size. -/
def isFloat (cs : List Char) : Bool :=
  let (negative, body) := unsigned cs
  body = ['i', 'n', 'f'] || body = ['n', 'a', 'n'] ||
    match scientific? body with
    | some x => negative || !x.isInfinite
    | none => false

/-- A number of exactly `n` decimal digits. -/
def fixed (n : Nat) (cs : List Char) : Option (Nat × List Char) :=
  let ds := cs.take n
  if ds.length = n then (Decimal.ofDigits? ds).map fun v => (v, cs.drop n) else none

def daysIn (year month : Nat) : Nat :=
  if month = 2 then
    if year % 4 = 0 ∧ (year % 100 ≠ 0 ∨ year % 400 = 0) then 29 else 28
  else if month = 4 ∨ month = 6 ∨ month = 9 ∨ month = 11 then 30
  else 31

def date? (cs : List Char) : Option (List Char) := do
  let (year, rest) ← fixed 4 cs
  let '-' :: rest := rest | none
  let (month, rest) ← fixed 2 rest
  let '-' :: rest := rest | none
  let (day, rest) ← fixed 2 rest
  if 1 ≤ month ∧ month ≤ 12 ∧ 1 ≤ day ∧ day ≤ daysIn year month then some rest else none

def time? (cs : List Char) : Option (List Char) := do
  let (hour, rest) ← fixed 2 cs
  let ':' :: rest := rest | none
  let (minute, rest) ← fixed 2 rest
  let ':' :: rest := rest | none
  let (second, rest) ← fixed 2 rest
  if 23 < hour ∨ 59 < minute ∨ 60 < second then none
  else match rest with
    | '.' :: rest =>
      if (rest.takeWhile Char.isDigit).isEmpty then none else some (rest.dropWhile Char.isDigit)
    | _ => some rest

/-- Whether a text is the offset of a time from universal time, or nothing. -/
def isOffset : List Char → Bool
  | [] => true
  | ['Z'] => true
  | ['z'] => true
  | s :: cs =>
    (s = '+' || s = '-') &&
      match fixed 2 cs with
      | some (hour, ':' :: rest) =>
        match fixed 2 rest with
        | some (minute, []) => hour ≤ 23 && minute ≤ 59
        | _ => false
      | _ => false

/-- Whether a word is a moment: a date, a time of day, or both and perhaps an offset. -/
def isMoment (cs : List Char) : Bool :=
  match date? cs with
  | some [] => true
  | some (t :: rest) =>
    (t = 'T' || t = 't' || t = ' ') &&
      match time? rest with
      | some rest => isOffset rest
      | none => false
  | none => time? cs = some []

def isWordChar (c : Char) : Bool :=
  c.isAlphanum || c = '+' || c = '-' || c = '_' || c = '.' || c = ':'

/-- Reads the characters of a value without quotes. A blank may stand between a date and a time of day. -/
def word (cs : List Char) : List Char × List Char :=
  let w := cs.takeWhile isWordChar
  let rest := cs.dropWhile isWordChar
  match rest with
  | ' ' :: d :: more =>
    if date? w = some [] ∧ d.isDigit then
      (w ++ ' ' :: (d :: more).takeWhile isWordChar, (d :: more).dropWhile isWordChar)
    else (w, rest)
  | _ => (w, rest)

def ofWord? (w : List Char) : Option Json :=
  if w = ['t', 'r', 'u', 'e'] then some (.bool true)
  else if w = ['f', 'a', 'l', 's', 'e'] then some (.bool false)
  else match integer? w with
    | some n => some (.int n)
    | none => if isFloat w then some .unheld else if isMoment w then some (.object []) else none

/-! ## Tables -/

/-- What a name stands for while a document is put together. -/
inductive Item where
  | value (j : Json)
  /-- A table. An implicit one was only named on the way to another; a dotted one was made by a dotted key. -/
  | table (implicit dotted : Bool) (items : List (String × Item))
  /-- Tables of one name, the last one first. -/
  | tables (elements : List (List (String × Item)))

abbrev Items := List (String × Item)

def find? (name : String) (items : Items) : Option Item :=
  items.lookup name

def put (name : String) (item : Item) : Items → Items
  | [] => [(name, item)]
  | (k, i) :: rest => if k = name then (k, item) :: rest else (k, i) :: put name item rest

/-- Changes the table at a path. Tables on the way are made as needed; in a list of tables the last one counts. With
dotted keys no table may be entered that has a header of its own. -/
def descend (byDots : Bool) (change : Bool → Items → Option Items) : List String → Bool → Items → Option Items
  | [], dotted, items => change dotted items
  | k :: path, _, items =>
    match find? k items with
    | none => do
      let inner ← descend byDots change path byDots []
      return put k (.table true byDots inner) items
    | some (.value _) => none
    | some (.table implicit dotted inner) =>
      if byDots && !implicit then none
      else do
        let inner ← descend byDots change path dotted inner
        return put k (.table implicit dotted inner) items
    | some (.tables []) => none
    | some (.tables (last :: earlier)) => do
      let last ← descend byDots change path false last
      return put k (.tables (last :: earlier)) items

/-- Adds a value under a key; a name may be used once. -/
def putValue (items : Items) (path : List String) (j : Json) : Option Items :=
  let parents := path.dropLast
  let name := path.getLastD ""
  descend (!parents.isEmpty)
    (fun dotted inner =>
      if dotted == parents.isEmpty then none
      else match find? name inner with
        | some _ => none
        | none => some (put name (.value j) inner))
    parents false items

def putValues (items : Items) (pairs : List (List String × Json)) : Option Items :=
  pairs.foldlM (fun items (path, j) => putValue items path j) items

mutual

def Item.toJson : Item → Json
  | .value j => j
  | .table _ _ items => .object (itemsToJson items)
  | .tables elements => .list (elementsToJson elements [])

def itemsToJson : List (String × Item) → List (String × Json)
  | [] => []
  | (k, i) :: rest => (k, i.toJson) :: itemsToJson rest

/-- The tables of a list, put back into their order. -/
def elementsToJson : List (List (String × Item)) → List Json → List Json
  | [], done => done
  | items :: rest, done => elementsToJson rest (.object (itemsToJson items) :: done)

end

/-! ## Values -/

/-- Reads elements and commas up to the end of a list. -/
def listFor (value : Reader Json) : Nat → List Json → Reader Json
  | 0, _, _ => none
  | rounds + 1, read, cs =>
    match skipLines cs with
    | ']' :: rest => some (.list read.reverse, rest)
    | cs => do
      let (j, rest) ← value cs
      match skipLines rest with
      | ',' :: rest => listFor value rounds (j :: read) rest
      | ']' :: rest => return (.list (j :: read).reverse, rest)
      | _ => none

def pair (value : Reader Json) : Reader (List String × Json) := fun cs => do
  let (path, rest) ← key cs
  let '=' :: rest := rest | none
  let (j, rest) ← value (skipBlanks rest)
  return ((path, j), rest)

/-- Reads pairs and commas up to the end of a table on one line. -/
def tableFor (value : Reader Json) : Nat → List (List String × Json) → Reader (List (List String × Json))
  | 0, _, _ => none
  | rounds + 1, read, cs => do
    let (p, rest) ← pair value cs
    match skipBlanks rest with
    | ',' :: rest => tableFor value rounds (p :: read) rest
    | '\x7d' :: rest => return ((p :: read).reverse, rest)
    | _ => none

def scalar : Reader Json := fun cs =>
  match cs with
  | '"' :: _ => (quoted cs).map fun (s, rest) => (.text (String.ofList s), rest)
  | '\'' :: _ => (quoted cs).map fun (s, rest) => (.text (String.ofList s), rest)
  | _ =>
    let (w, rest) := word cs
    (ofWord? w).map fun j => (j, rest)

/-- Reads a value with at most `depth` lists and tables inside each other, be they empty or not. -/
def value : Nat → Reader Json
  | 0, cs => scalar cs
  | depth + 1, cs =>
    match cs with
    | '[' :: rest => listFor (value depth) (rest.length + 1) [] rest
    | '\x7b' :: rest =>
      match skipBlanks rest with
      | '\x7d' :: rest => some (.object [], rest)
      | rest => do
        let (pairs, rest) ← tableFor (value depth) (rest.length + 1) [] rest
        let items ← putValues [] pairs
        return (.object (itemsToJson items), rest)
    | _ => scalar cs

/-! ## Documents -/

inductive Line where
  | blank
  | pair (path : List String) (j : Json)
  /-- The header of a table. -/
  | header (path : List String)
  /-- The header of the next table of a list. -/
  | element (path : List String)

/-- Reads what a line says, up to blanks and a comment. -/
def line (cs : List Char) : Option (Line × List Char) :=
  match skipBlanks cs with
  | [] => some (.blank, [])
  | '#' :: rest => some (.blank, '#' :: rest)
  | '\n' :: rest => some (.blank, '\n' :: rest)
  | '\r' :: rest => some (.blank, '\r' :: rest)
  | '[' :: '[' :: rest => do
    let (path, rest) ← key rest
    let ']' :: ']' :: rest := rest | none
    return (.element path, rest)
  | '[' :: rest => do
    let (path, rest) ← key rest
    let ']' :: rest := rest | none
    return (.header path, rest)
  | cs => do
    let ((path, j), rest) ← pair (value maxDepth) cs
    return (.pair path j, rest)

def linesOf : Nat → List Char → Option (List Line)
  | 0, _ => none
  | rounds + 1, cs => do
    let (l, rest) ← line cs
    let rest := skipComment rest
    if rest.isEmpty then return [l]
    else do
      let rest ← lineEnd? rest
      let ls ← linesOf rounds rest
      return l :: ls

/-- The pairs up to the next header, and the lines from there. -/
def splitPairs : List Line → List (List String × Json) × List Line
  | .pair path j :: rest =>
    let (pairs, rest) := splitPairs rest
    ((path, j) :: pairs, rest)
  | .blank :: rest => splitPairs rest
  | rest => ([], rest)

/-- Adds a table under its header. A table that was only named so far is taken over. -/
def putTable (items : Items) (path : List String) (pairs : List (List String × Json)) : Option Items :=
  let name := path.getLastD ""
  descend false
    (fun _ inner =>
      match find? name inner with
      | none => do
        let own ← putValues [] pairs
        return put name (.table false false own) inner
      | some (.table true false own) => do
        let own ← putValues own pairs
        return put name (.table false false own) inner
      | some _ => none)
    path.dropLast false items

/-- Adds the next table of a list under its header. -/
def putElement (items : Items) (path : List String) (pairs : List (List String × Json)) : Option Items :=
  let name := path.getLastD ""
  descend false
    (fun _ inner => do
      let own ← putValues [] pairs
      match find? name inner with
      | none => return put name (.tables [own]) inner
      | some (.tables earlier) => return put name (.tables (own :: earlier)) inner
      | some _ => none)
    path.dropLast false items

/-- Adds the tables of a document, one header with its pairs at a time. -/
def putTables : Nat → Items → List Line → Option Items
  | 0, _, _ => none
  | rounds + 1, items, ls =>
    match ls with
    | [] => some items
    | .header path :: rest => do
      let (pairs, rest) := splitPairs rest
      let items ← putTable items path pairs
      putTables rounds items rest
    | .element path :: rest => do
      let (pairs, rest) := splitPairs rest
      let items ← putElement items path pairs
      putTables rounds items rest
    | _ :: rest => putTables rounds items rest

/-- The document that a text denotes. A mark of the byte order in front is passed over. -/
def parse? (s : String) : Option Json := do
  let cs := match s.toList with
    | '\ufeff' :: rest => rest
    | cs => cs
  let ls ← linesOf (cs.length + 1) cs
  let (pairs, rest) := splitPairs ls
  let root ← putValues [] pairs
  let items ← putTables (rest.length + 1) root rest
  return .object (itemsToJson items)

end Toml

end ContractHost
