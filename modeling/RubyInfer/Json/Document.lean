import RubyInfer.Json.Basic

/-!
JSON as it stands in a text. A `Document` keeps the fields of an object in the order written, with
repeats, and knows strings and numbers that are well formed and have no value: bytes that are not
UTF-8, an escape that names half of a surrogate pair, a number beyond the doubles.
`Document.readBytes?` accepts exactly the grammar of JSON, which is one of bytes, since everything
but the inside of a string is ASCII; `Document.toJson?` asks for values and a bounded nesting.
-/

namespace RubyInfer

inductive Document
  | null
  | bool (b : Bool)
  | number (n : Option Number)
  | string (s : Option String)
  | array (items : List Document)
  | object (fields : List (Option String × Document))
deriving Inhabited

namespace Document

abbrev Reader (α : Type) := List UInt8 → Option (α × List UInt8)

/-! ## Bytes with a meaning -/

@[match_pattern]
def quoteMark : UInt8 := 0x22

@[match_pattern]
def plusSign : UInt8 := 0x2b

@[match_pattern]
def comma : UInt8 := 0x2c

@[match_pattern]
def minusSign : UInt8 := 0x2d

@[match_pattern]
def point : UInt8 := 0x2e

@[match_pattern]
def colon : UInt8 := 0x3a

@[match_pattern]
def openBracket : UInt8 := 0x5b

@[match_pattern]
def backslash : UInt8 := 0x5c

@[match_pattern]
def closeBracket : UInt8 := 0x5d

@[match_pattern]
def openBrace : UInt8 := 0x7b

@[match_pattern]
def closeBrace : UInt8 := 0x7d

def ascii (c : Char) : UInt8 := c.toNat.toUInt8

def isBlank (b : UInt8) : Bool := b = ascii ' ' ∨ b = ascii '\t' ∨ b = ascii '\n' ∨ b = ascii '\r'

def skipBlanks (bs : List UInt8) : List UInt8 := bs.dropWhile isBlank

def expect : List UInt8 → List UInt8 → Option (List UInt8)
  | [], bs => some bs
  | _ :: _, [] => none
  | p :: ps, b :: bs => if p = b then expect ps bs else none

/-! ## Strings -/

/-- What stands inside the quotes: a byte, or a 16-bit unit written as an escape. -/
inductive Piece
  | byte (b : UInt8)
  | unit (n : Nat)

def hexValue? (c : Char) : Option Nat :=
  if '0' ≤ c ∧ c ≤ '9' then some (c.toNat - 48)
  else if 'a' ≤ c ∧ c ≤ 'f' then some (c.toNat - 87)
  else if 'A' ≤ c ∧ c ≤ 'F' then some (c.toNat - 55)
  else none

def hexByte? (b : UInt8) : Option Nat := hexValue? (Char.ofUInt8 b)

def hexUnit? (a b c d : UInt8) : Option Nat := do
  pure (((← hexByte? a) * 16 + (← hexByte? b)) * 256 + (← hexByte? c) * 16 + (← hexByte? d))

def simpleEscape? (b : UInt8) : Option UInt8 :=
  if b = quoteMark ∨ b = backslash ∨ b = ascii '/' then some b
  else if b = ascii 'b' then some 0x08
  else if b = ascii 'f' then some 0x0c
  else if b = ascii 'n' then some 0x0a
  else if b = ascii 'r' then some 0x0d
  else if b = ascii 't' then some 0x09
  else none

def pieces : Reader (List Piece)
  | [] => none
  | quoteMark :: bs => some ([], bs)
  | backslash :: 0x75 :: a :: b :: c :: d :: bs => do
    let n ← hexUnit? a b c d
    let (ps, rest) ← pieces bs
    pure (.unit n :: ps, rest)
  | backslash :: b :: bs => do
    let e ← simpleEscape? b
    let (ps, rest) ← pieces bs
    pure (.byte e :: ps, rest)
  | b :: bs =>
    if b = backslash ∨ b < 0x20 then none
    else do
      let (ps, rest) ← pieces bs
      pure (.byte b :: ps, rest)

def isHighSurrogate (n : Nat) : Bool := 0xd800 ≤ n ∧ n < 0xdc00

def isLowSurrogate (n : Nat) : Bool := 0xdc00 ≤ n ∧ n < 0xe000

/-- The bytes that the pieces stand for; half of a surrogate pair stands for none. -/
def assemble? : List Piece → Option (List UInt8)
  | [] => some []
  | .byte b :: ps => (assemble? ps).map (b :: ·)
  | .unit n :: .unit m :: ps =>
    if isHighSurrogate n then
      if isLowSurrogate m then
        (assemble? ps).map (String.utf8EncodeChar
          (Char.ofNat ((n - 0xd800) * 0x400 + (m - 0xdc00) + 0x10000)) ++ ·)
      else none
    else if isLowSurrogate n then none
    else (assemble? (.unit m :: ps)).map (String.utf8EncodeChar (Char.ofNat n) ++ ·)
  | .unit n :: ps =>
    if isHighSurrogate n ∨ isLowSurrogate n then none
    else (assemble? ps).map (String.utf8EncodeChar (Char.ofNat n) ++ ·)

def textOf? (ps : List Piece) : Option String := do
  String.fromUTF8? ⟨(← assemble? ps).toArray⟩

def stringBody : Reader (Option String) := fun bs => do
  let (ps, rest) ← pieces bs
  pure (textOf? ps, rest)

/-! ## Numbers -/

def isDigit (b : UInt8) : Bool := ascii '0' ≤ b ∧ b ≤ ascii '9'

def digitValue (b : UInt8) : Nat := b.toNat - 48

structure Numeral where
  negative : Bool
  whole : List Nat
  fraction : Option (List Nat)
  exponent : Option (Bool × List Nat)

def digits (bs : List UInt8) : List Nat × List UInt8 :=
  ((bs.takeWhile isDigit).map digitValue, bs.dropWhile isDigit)

def someDigits : Reader (List Nat) := fun bs =>
  match digits bs with
  | ([], _) => none
  | found => some found

def fractionPart : Reader (Option (List Nat))
  | point :: bs => (someDigits bs).map fun (ds, rest) => (some ds, rest)
  | bs => some (none, bs)

def exponentDigits (negative : Bool) : Reader (Option (Bool × List Nat)) := fun bs =>
  (someDigits bs).map fun (ds, rest) => (some (negative, ds), rest)

def exponentPart : Reader (Option (Bool × List Nat))
  | b :: bs =>
    if b = ascii 'e' ∨ b = ascii 'E' then
      match bs with
      | plusSign :: rest => exponentDigits false rest
      | minusSign :: rest => exponentDigits true rest
      | rest => exponentDigits false rest
    else some (none, b :: bs)
  | [] => some (none, [])

def wholePart : Reader (List Nat) := fun bs => do
  let (ds, rest) ← someDigits bs
  match ds with
  | 0 :: _ :: _ => none
  | _ => pure (ds, rest)

def numeral (negative : Bool) : Reader Numeral := fun bs => do
  let (whole, bs) ← wholePart bs
  let (fraction, bs) ← fractionPart bs
  let (exponent, bs) ← exponentPart bs
  pure (⟨negative, whole, fraction, exponent⟩, bs)

def accumulate : (acc : Nat) → List Nat → Nat × Nat
  | acc, [] => (acc, 0)
  | acc, d :: ds => if acc * 10 + d < Nat.pow 2 64 then accumulate (acc * 10 + d) ds else (acc, ds.length + 1)

def powerOfTen (k : Nat) : Float := Float.ofScientific 1 false k

/-- Divides by `1e308` until the rest of a very small exponent is in range; `steps` bounds how
often. -/
def shrink : (steps : Nat) → Float → Nat → Float
  | 0, x, _ => x
  | steps + 1, x, k =>
    if k ≤ 308 then x / powerOfTen k
    else if x == 0 then x
    else shrink steps (x / powerOfTen 308) (k - 308)

/-- `significand · 10^exponent`, rounded at every step; none when it is beyond the doubles. -/
def scale? (significand : Nat) : (exponent : Int) → Option Float
  | .ofNat k =>
    let x := (UInt64.ofNat significand).toFloat
    if k ≤ 308 then
      let y := x * powerOfTen k
      if y.isInf then none else some y
    else if significand = 0 then some x
    else none
  | .negSucc k => some (shrink 4 (UInt64.ofNat significand).toFloat (k + 1))

def clampExponent (e : Int) : Int := max (-Int.pow 2 31) (min e (Int.pow 2 31 - 1))

def exponentValue? (significand : Nat) (start : Int) : Option (Bool × List Nat) → Option Float
  | none => scale? significand start
  | some (negative, ds) =>
    let e : Nat := ds.foldl (fun acc d => acc * 10 + d) 0
    if e < Nat.pow 2 31 then
      scale? significand (clampExponent (if negative then start - (e : Int) else start + (e : Int)))
    else if significand ≠ 0 ∧ ¬negative then none
    else some 0

def Numeral.size? (n : Numeral) : Option Float :=
  let (whole, dropped) := accumulate 0 n.whole
  match n.fraction with
  | none => exponentValue? whole dropped n.exponent
  | some ds =>
    let (all, ignored) := accumulate whole ds
    exponentValue? all ((dropped : Int) - (ds.length - ignored : Nat)) n.exponent

def Numeral.value? (n : Numeral) : Option Number :=
  let asDouble : Option Number :=
    n.size?.map fun x => .double (if n.negative then (Double.ofFloat x).neg else Double.ofFloat x)
  let (whole, dropped) := accumulate 0 n.whole
  match n.fraction, n.exponent with
  | none, none =>
    if dropped ≠ 0 then asDouble
    else if ¬n.negative then some (.integer whole)
    else if whole ≠ 0 ∧ whole ≤ Nat.pow 2 63 then some (.integer (-whole))
    else asDouble
  | _, _ => asDouble

/-! ## Values -/

/-- The items of an array after the first bracket or comma; every item takes at least one byte of
`fuel`. -/
def itemsWith (value : Reader Document) : (fuel : Nat) → Reader (List Document)
  | 0, _ => none
  | fuel + 1, bs => do
    let (v, bs) ← value bs
    match skipBlanks bs with
    | closeBracket :: rest => pure ([v], rest)
    | comma :: rest =>
      let (vs, rest) ← itemsWith value fuel rest
      pure (v :: vs, rest)
    | _ => none

def fieldsWith (value : Reader Document) : (fuel : Nat) → Reader (List (Option String × Document))
  | 0, _ => none
  | fuel + 1, bs => do
    match skipBlanks bs with
    | quoteMark :: bs =>
      let (key, bs) ← stringBody bs
      match skipBlanks bs with
      | colon :: bs =>
        let (v, bs) ← value bs
        match skipBlanks bs with
        | closeBrace :: rest => pure ([(key, v)], rest)
        | comma :: rest =>
          let (fs, rest) ← fieldsWith value fuel rest
          pure ((key, v) :: fs, rest)
        | _ => none
      | _ => none
    | _ => none

def arrayWith (value : Reader Document) : Reader Document := fun bs =>
  match skipBlanks bs with
  | closeBracket :: rest => some (.array [], rest)
  | _ => (itemsWith value (bs.length + 1) bs).map fun (vs, rest) => (.array vs, rest)

def objectWith (value : Reader Document) : Reader Document := fun bs =>
  match skipBlanks bs with
  | closeBrace :: rest => some (.object [], rest)
  | _ => (fieldsWith value (bs.length + 1) bs).map fun (fs, rest) => (.object fs, rest)

def words : List (String × Document) := [("null", .null), ("true", .bool true), ("false", .bool false)]

def wordValue : Reader Document := fun bs =>
  words.findSome? fun (spelling, v) => (expect (spelling.toList.map ascii) bs).map (fun rest => (v, rest))

def numberValue : Reader Document
  | minusSign :: rest => (numeral true rest).map fun (n, rest) => (.number n.value?, rest)
  | rest => (numeral false rest).map fun (n, rest) => (.number n.value?, rest)

def valueWith (value : Reader Document) : Reader Document := fun bs =>
  match skipBlanks bs with
  | openBrace :: rest => objectWith value rest
  | openBracket :: rest => arrayWith value rest
  | quoteMark :: rest => (stringBody rest).map fun (s, rest) => (.string s, rest)
  | rest => wordValue rest <|> numberValue rest

def valueWithin : (levels : Nat) → Reader Document
  | 0 => fun _ => none
  | levels + 1 => valueWith (valueWithin levels)

/-- The one value that bytes hold, with nothing but blanks around it. A text cannot nest deeper than
it is long. -/
def readBytes? (bytes : ByteArray) : Option Document := do
  let bs := bytes.data.toList
  let (v, rest) ← valueWithin (bs.length + 1) bs
  if (skipBlanks rest).isEmpty then pure v else none

def read? (text : String) : Option Document := readBytes? text.toUTF8

mutual
/-- The value of a document that nests at most `levels` deep; of fields with one key the last
counts. -/
def toJson? : (levels : Nat) → Document → Option Json
  | _, .null => some .null
  | _, .bool b => some (.bool b)
  | _, .number n => n.map .number
  | _, .string s => s.map .string
  | 0, .array _ => none
  | levels + 1, .array items => (itemsToJson? levels items).map .array
  | 0, .object _ => none
  | levels + 1, .object fields => (fieldsToJson? levels [] fields).map .object

def itemsToJson? : (levels : Nat) → List Document → Option (List Json)
  | _, [] => some []
  | levels, v :: vs => do
    let w ← toJson? levels v
    let ws ← itemsToJson? levels vs
    pure (w :: ws)

def fieldsToJson? : (levels : Nat) → List (String × Json) → List (Option String × Document) →
    Option (List (String × Json))
  | _, done, [] => some done
  | levels, done, (key, v) :: rest => do
    let k ← key
    let w ← toJson? levels v
    fieldsToJson? levels (Json.setField k w done) rest
end

end Document

def Json.maxNesting : Nat := 127

def Json.read? (text : String) : Option Json := do
  (← Document.read? text).toJson? Json.maxNesting

def Json.readBytes? (bytes : ByteArray) : Option Json := do
  (← Document.readBytes? bytes).toJson? Json.maxNesting

end RubyInfer
