import RubyInfer.Toml.Value

/-!
TOML scalars: the four kinds of strings, numbers, booleans, dates and times.
-/

namespace RubyInfer.Toml

abbrev Reader (α : Type) := List Char → Option (α × List Char)

def isBlank (c : Char) : Bool := c = ' ' ∨ c = '\t'

def newline? : List Char → Option (List Char)
  | '\n' :: cs => some cs
  | '\r' :: '\n' :: cs => some cs
  | _ => none

def isControl (c : Char) : Bool := (c.toNat < 0x20 ∧ c ≠ '\t') ∨ c.toNat = 0x7f

/-! ## Strings -/

def hexValue? (c : Char) : Option Nat :=
  if '0' ≤ c ∧ c ≤ '9' then some (c.toNat - '0'.toNat)
  else if 'a' ≤ c ∧ c ≤ 'f' then some (c.toNat - 'a'.toNat + 10)
  else if 'A' ≤ c ∧ c ≤ 'F' then some (c.toNat - 'A'.toNat + 10)
  else none

def codePoint : (count : Nat) → (acc : Nat) → Reader Char
  | 0, acc, cs => if acc.isValidChar then some (Char.ofNat acc, cs) else none
  | count + 1, acc, c :: cs => do codePoint count (acc * 16 + (← hexValue? c)) cs
  | _ + 1, _, [] => none

def escape : Reader Char
  | 'b' :: cs => some ('\x08', cs)
  | 't' :: cs => some ('\t', cs)
  | 'n' :: cs => some ('\n', cs)
  | 'f' :: cs => some ('\x0c', cs)
  | 'r' :: cs => some ('\r', cs)
  | 'e' :: cs => some ('\x1b', cs)
  | '"' :: cs => some ('"', cs)
  | '\\' :: cs => some ('\\', cs)
  | 'x' :: cs => codePoint 2 0 cs
  | 'u' :: cs => codePoint 4 0 cs
  | 'U' :: cs => codePoint 8 0 cs
  | _ => none

def lineString (mark : Char) (escaped : Bool) : (fuel : Nat) → (acc : List Char) → Reader String
  | 0, _, _ => none
  | _ + 1, _, [] => none
  | fuel + 1, acc, c :: cs =>
    if c = mark then some (String.ofList acc.reverse, cs)
    else if escaped ∧ c = '\\' then
      match escape cs with
      | some (d, cs) => lineString mark escaped fuel (d :: acc) cs
      | none => none
    else if isControl c then none
    else lineString mark escaped fuel (c :: acc) cs

def skipBlankLines : (fuel : Nat) → List Char → List Char
  | 0, cs => cs
  | fuel + 1, cs =>
    let rest := cs.dropWhile isBlank
    match newline? rest with
    | some rest => skipBlankLines fuel rest
    | none => rest

def foldedLines (cs : List Char) : Option (List Char) :=
  (newline? (cs.dropWhile isBlank)).map (fun rest => skipBlankLines (rest.length + 1) rest)

/-- A string over several lines up to its closing marks. Up to two marks may stand right before
these. The ends of lines are kept as they are written. -/
def blockString (mark : Char) (escaped : Bool) : (fuel : Nat) → (acc : List Char) → Reader String
  | 0, _, _ => none
  | _ + 1, _, [] => none
  | fuel + 1, acc, c :: cs =>
    if c = mark then
      let marks := (c :: cs).takeWhile (· = mark)
      let rest := (c :: cs).drop marks.length
      if 5 < marks.length then none
      else if 3 ≤ marks.length then some (String.ofList (acc.reverse ++ marks.drop 3), rest)
      else blockString mark escaped fuel (marks ++ acc) rest
    else if escaped ∧ c = '\\' then
      match foldedLines cs with
      | some rest => blockString mark escaped fuel acc rest
      | none =>
        match escape cs with
        | some (d, rest) => blockString mark escaped fuel (d :: acc) rest
        | none => none
    else
      match newline? (c :: cs) with
      | some rest =>
        blockString mark escaped fuel
        (((c :: cs).take (cs.length + 1 - rest.length)).reverse ++ acc) rest
      | none => if isControl c then none else blockString mark escaped fuel (c :: acc) cs

def string : Reader String := fun cs =>
  let fuel := cs.length + 1
  let body (mark : Char) (escaped : Bool) (rest : List Char) : Option (String × List Char) :=
    blockString mark escaped fuel [] ((newline? rest).getD rest)
  match cs with
  | '"' :: '"' :: '"' :: rest => body '"' true rest
  | '\'' :: '\'' :: '\'' :: rest => body '\'' false rest
  | '"' :: rest => lineString '"' true fuel [] rest
  | '\'' :: rest => lineString '\'' false fuel [] rest
  | _ => none

/-! ## Numbers -/

def isDigit (c : Char) : Bool := '0' ≤ c ∧ c ≤ '9'

def digits? (value : Char → Option Nat) : (afterDigit : Bool) → List Char → Option (List Nat)
  | afterDigit, [] => if afterDigit then some [] else none
  | afterDigit, '_' :: cs => if afterDigit then digits? value false cs else none
  | _, c :: cs => do return (← value c) :: (← digits? value true cs)

def decimalValue? (c : Char) : Option Nat := if isDigit c then some (c.toNat - '0'.toNat) else none

def below? (base : Nat) (c : Char) : Option Nat := (hexValue? c).filter (· < base)

def ofDigits (base : Nat) (ds : List Nat) : Nat := ds.foldl (fun n d => n * base + d) 0

def whole? (cs : List Char) : Option (List Nat) := do
  let ds ← digits? decimalValue? false cs
  if ds.head? = some 0 ∧ 1 < ds.length then none else return ds

def sign : List Char → Bool × List Char
  | '-' :: cs => (true, cs)
  | '+' :: cs => (false, cs)
  | cs => (false, cs)

def bounded? (n : Int) : Option Value := if -(Int.pow 2 127) ≤ n ∧
    n < Int.pow 2 128 then some (.integer n) else none

def based? (base : Nat) (cs : List Char) : Option Value := do
  bounded? (ofDigits base (← digits? (below? base) false cs))

def integer? : List Char → Option Value
  | '0' :: 'x' :: cs => based? 16 cs
  | '0' :: 'o' :: cs => based? 8 cs
  | '0' :: 'b' :: cs => based? 2 cs
  | cs => do
    let (negative, cs) := sign cs
    let n := ofDigits 10 (← whole? cs)
    bounded? (if negative then -(n : Int) else n)

def exponent? (cs : List Char) : Option Int := do
  let (negative, cs) := sign cs
  let n := ofDigits 10 (← digits? decimalValue? false cs)
  return if negative then -(n : Int) else n

def isExponentMark (c : Char) : Bool := c = 'e' ∨ c = 'E'

def float? (cs : List Char) : Option Value := do
  let (_, cs) := sign cs
  if cs = ['i', 'n', 'f'] ∨ cs = ['n', 'a', 'n'] then return .float
  let mantissa := cs.takeWhile (fun c => !isExponentMark c)
  let tail := cs.drop mantissa.length
  let wholePart := mantissa.takeWhile (· ≠ '.')
  let fraction := mantissa.drop wholePart.length
  if fraction.isEmpty ∧ tail.isEmpty then none
  let ds ← whole? wholePart
  let fs ← if fraction.isEmpty then some [] else digits? decimalValue? false (fraction.drop 1)
  let e ← if tail.isEmpty then some 0 else exponent? (tail.drop 1)
  let scale : Int := e - fs.length
  let significand := ofDigits 10 (ds ++ fs)
  if significand ≠ 0 ∧ 309 < scale + (Nat.repr significand).length then none
  let x := if scale < 0 then Float.ofScientific significand true scale.natAbs else
    Float.ofScientific significand false scale.natAbs
  if x.isInf then none else return .float

/-! ## Dates and times -/

def fixed (count : Nat) : Reader Nat := fun cs =>
  let ds := cs.take count
  if ds.length = count ∧ ds.all isDigit then
    some (ofDigits 10 (ds.filterMap decimalValue?), cs.drop count) else none

def expect (c : Char) : Reader Unit
  | d :: cs => if d = c then some ((), cs) else none
  | [] => none

def daysIn (year month : Nat) : Nat :=
  if month = 2 then if year % 4 = 0 ∧ (year % 100 ≠ 0 ∨ year % 400 = 0) then 29 else 28
  else if month = 4 ∨ month = 6 ∨ month = 9 ∨ month = 11 then 30
  else 31

def date : Reader Unit := fun cs => do
  let (year, cs) ← fixed 4 cs
  let ((), cs) ← expect '-' cs
  let (month, cs) ← fixed 2 cs
  let ((), cs) ← expect '-' cs
  let (day, cs) ← fixed 2 cs
  if 1 ≤ month ∧ month ≤ 12 ∧ 1 ≤ day ∧ day ≤ daysIn year month then some ((), cs) else none

def seconds : Reader Unit := fun cs => do
  let (second, cs) ← fixed 2 cs
  if 60 < second then none
  match cs with
  | '.' :: rest =>
    let fraction := rest.takeWhile isDigit
    if fraction.isEmpty then none else some ((), rest.drop fraction.length)
  | _ => some ((), cs)

def time : Reader Unit := fun cs => do
  let (hour, cs) ← fixed 2 cs
  let ((), cs) ← expect ':' cs
  let (minute, cs) ← fixed 2 cs
  if 23 < hour ∨ 59 < minute then none
  match cs with
  | ':' :: rest => seconds rest
  | _ => some ((), cs)

def offset : Reader Unit := fun cs =>
  match cs with
  | 'Z' :: rest => some ((), rest)
  | 'z' :: rest => some ((), rest)
  | c :: rest =>
    if c = '+' ∨ c = '-' then do
      let (hour, rest) ← fixed 2 rest
      let ((), rest) ← expect ':' rest
      let (minute, rest) ← fixed 2 rest
      if 23 < hour ∨ 59 < minute then none else some ((), rest)
    else some ((), cs)
  | [] => some ((), [])

def isDatetime (cs : List Char) : Bool :=
  let ends (r : Option (Unit × List Char)) : Bool := r.any (fun p => p.2.isEmpty)
  match date cs with
  | some ((), []) => true
  | some ((), c :: rest) => (c = 'T' ∨ c = 't' ∨ c = ' ') && ends ((time rest).bind (fun p => offset p.2))
  | none => ends (time cs)

def plain? (cs : List Char) : Option Value :=
  if cs = "true".toList then some (.boolean true)
  else if cs = "false".toList then some (.boolean false)
  else if isDatetime cs then some .datetime
  else (integer? cs).or (float? cs)

def endsPlain (c : Char) : Bool := [' ', '\t', '\n', '\r', ',', ']', '\x7d', '#', '='].contains c

def plain : Reader Value := fun cs =>
  let token := cs.takeWhile (fun c => !endsPlain c)
  let rest := cs.drop token.length
  match date token, rest with
  | some ((), []), ' ' :: d :: more =>
    if isDigit d then
      let time := (d :: more).takeWhile (fun c => !endsPlain c)
      (plain? (token ++ ' ' :: time)).map (·, (d :: more).drop time.length)
    else (plain? token).map (·, rest)
  | _, _ => (plain? token).map (·, rest)

end RubyInfer.Toml
