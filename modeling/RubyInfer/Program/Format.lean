import RubyInfer.Double
import RubyInfer.Program.Integer

/-!
Texts that are put together from arguments: with backslash escapes, and with a format whose places
are filled.
-/

namespace RubyInfer.Program

/-! ## Escapes -/

def isOctal (c : Char) : Bool := '0' ≤ c ∧ c ≤ '7'

def octal (cs : List Char) : Char × List Char :=
  let ds := (cs.take 3).takeWhile isOctal
  (Char.ofNat (ds.foldl (fun n c => n * 8 + (c.toNat - 48)) 0 % 256), cs.drop ds.length)

def escapes : List (Char × Char) :=
  [('\\', '\\'), ('a', '\x07'), ('b', '\x08'), ('e', '\x1b'), ('f', '\x0c'), ('n', '\n'),
    ('r', '\r'), ('t', '\t'), ('v', '\x0b')]

def escaped : List Char → Char × List Char
  | c :: cs =>
    match escapes.lookup c with
    | some e => (e, cs)
    | none => if isOctal c then octal (c :: cs) else ('\\', c :: cs)
  | [] => ('\\', [])

/-- Replaces backslash escapes, where octal digits may have one more zero in front; `false` tells
that the text ends at an escape for that. -/
def unescape : (fuel : Nat) → List Char → List Char × Bool
  | 0, cs => (cs, true)
  | _ + 1, [] => ([], true)
  | _ + 1, '\\' :: 'c' :: _ => ([], false)
  | fuel + 1, '\\' :: '0' :: cs =>
    let (e, rest) := octal cs
    let (done, more) := unescape fuel rest
    (e :: done, more)
  | fuel + 1, '\\' :: cs =>
    let (e, rest) := escaped cs
    let (done, more) := unescape fuel rest
    (e :: done, more)
  | fuel + 1, c :: cs =>
    let (done, more) := unescape fuel cs
    (c :: done, more)

def echoed (args : List String) : String :=
  let (quiet, words) := if args.head? = some "-n" then (true, args.tail) else (false, args)
  let text := (" ".intercalate words).toList
  let (done, more) := unescape (text.length + 1) text
  String.ofList (if quiet ∨ !more then done else done ++ ['\n'])

/-! ## Numbers with a point -/

namespace Decimal

def nearest (r : Double.Ratio) : Nat :=
  let q := r.num / r.den
  let twice := 2 * (r.num % r.den)
  if twice < r.den then q else if r.den < twice then q + 1 else q + q % 2

def shift (r : Double.Ratio) (e : Int) : Double.Ratio :=
  let s := Double.Ratio.scaled 1 10 e
  ⟨r.num * s.num, r.den * s.den⟩

def pointed (places : Nat) (keepPoint : Bool) (n : Nat) : List Char :=
  let digits := Nat.toDigits 10 n
  let digits := List.replicate (places + 1 - digits.length) '0' ++ digits
  let front := digits.take (digits.length - places)
  let back := digits.drop (digits.length - places)
  if back.isEmpty ∧ !keepPoint then front else front ++ '.' :: back

def fixed (r : Double.Ratio) (places : Nat) (keepPoint : Bool) : List Char :=
  pointed places keepPoint (nearest (shift r places))

def leadingDigits (r : Double.Ratio) (places : Nat) : Nat × Int :=
  if r.num = 0 then (0, 0)
  else
    let e := r.leading
    let n := nearest (shift r (places - e))
    if Nat.pow 10 (places + 1) ≤ n then (Nat.pow 10 places, e + 1) else (n, e)

def power (mark : Char) (e : Int) : List Char :=
  let digits := Nat.toDigits 10 e.natAbs
  mark :: (if e < 0 then '-' else '+') :: List.replicate (2 - digits.length) '0' ++ digits

def scientific (r : Double.Ratio) (places : Nat) (keepPoint : Bool) : List Char :=
  let (n, e) := leadingDigits r places
  pointed places keepPoint n ++ power 'e' e

def dropZeros (cs : List Char) : List Char :=
  if cs.contains '.' then
    let rest := cs.reverse.dropWhile (· = '0')
    (if rest.head? = some '.' then rest.tail else rest).reverse
  else cs

def general (r : Double.Ratio) (digits : Nat) (keepZeros : Bool) : List Char :=
  let digits := max 1 digits
  let (n, e) := leadingDigits r (digits - 1)
  let tidy (cs : List Char) : List Char := if keepZeros then cs else dropZeros cs
  if -4 ≤ e ∧ e < digits then tidy (fixed r (digits - 1 - e).toNat keepZeros)
  else tidy (pointed (digits - 1) keepZeros n) ++ power 'e' e

def widest : Nat := 5000

def unsigned? (cs : List Char) : Option (Double × List Char) :=
  let whole := cs.takeWhile Char.isDigit
  let afterWhole := cs.drop whole.length
  let (fraction, rest) : List Char × List Char := match afterWhole with
    | '.' :: more => (more.takeWhile Char.isDigit, more.dropWhile Char.isDigit)
    | _ => ([], afterWhole)
  if whole.isEmpty ∧ fraction.isEmpty then none
  else
    let digits := (whole ++ fraction).foldl (fun n c => n * 10 + (c.toNat - 48)) 0
    let (e, rest) : Int × List Char := match rest with
      | mark :: more =>
        let (negative, ds) := Integer.sign more
        if mark = 'e' ∨ mark = 'E' then
          match Integer.digits? 10 ds with
          | some (n, rest) => (if negative then -(n : Int) else n, rest)
          | none => (0, mark :: more)
        else (0, mark :: more)
      | [] => (0, [])
    let scale := max (-(widest : Int)) (min widest e) - fraction.length
    some (Double.ofFloat (Float.ofScientific digits (scale < 0) scale.natAbs), rest)

def read? (cs : List Char) : Option (Double × List Char) := do
  let (negative, cs) := Integer.sign (cs.dropWhile Integer.isBlank)
  let named (name : String) : Bool := (String.ofList (cs.take name.length)).toLower = name
  let (x, rest) ←
    if named "infinity" then some (Double.ofFloat (1 / 0), cs.drop 8)
    else if named "inf" then some (Double.ofFloat (1 / 0), cs.drop 3)
    else if named "nan" then some (Double.ofFloat (0 / 0), cs.drop 3)
    else
      match cs with
      | '0' :: x :: more =>
        if (x = 'x' ∨ x = 'X') ∧ (Integer.digits? 16 more).isSome then
          (Integer.digits? 16 more).map (fun (n, rest) => (Double.ofFloat (Float.ofNat n), rest))
        else unsigned? cs
      | _ => unsigned? cs
  return (if negative then x.neg else x, rest)

end Decimal

/-! ## Places of a format -/

structure Directive where
  left : Bool := false
  zeros : Bool := false
  plus : Bool := false
  gap : Bool := false
  full : Bool := false
  width : Nat := 0
  precision : Option Nat := none

namespace Directive

def flags : Directive → List Char → Directive × List Char
  | d, '-' :: cs => flags { d with left := true } cs
  | d, '0' :: cs => flags { d with zeros := true } cs
  | d, '+' :: cs => flags { d with plus := true } cs
  | d, ' ' :: cs => flags { d with gap := true } cs
  | d, '#' :: cs => flags { d with full := true } cs
  | d, cs => (d, cs)

def pad (d : Directive) (text : List Char) : List Char :=
  let blanks := List.replicate (d.width - text.length) ' '
  if d.left then text ++ blanks else blanks ++ text

def padNumber (d : Directive) (zeros : Bool) (front digits : List Char) : List Char :=
  if zeros ∧ !d.left then front ++ List.replicate (d.width - front.length - digits.length) '0' ++ digits
  else d.pad (front ++ digits)

def text (d : Directive) (s : String) : List Char := d.pad ((d.precision.map s.toList.take).getD s.toList)

def signOf (d : Directive) (negative : Bool) : List Char :=
  if negative then ['-'] else if d.plus then ['+'] else if d.gap then [' '] else []

def bases : List (Char × Nat) := [('d', 10), ('i', 10), ('u', 10), ('o', 8), ('x', 16), ('X', 16)]

def isSigned (letter : Char) : Bool := letter = 'd' ∨ letter = 'i'

def number (d : Directive) (letter : Char) (base : Nat) (n : Int) : List Char :=
  let digits := if n = 0 ∧ d.precision = some 0 then [] else Nat.toDigits base n.natAbs
  let digits := if letter = 'X' then digits.map Char.toUpper else digits
  let digits := List.replicate ((d.precision.getD 0) - digits.length) '0' ++ digits
  let digits := if d.full ∧ letter = 'o' ∧ digits.head? ≠ some '0' then '0' :: digits else digits
  let front :=
    if isSigned letter then d.signOf (n < 0)
    else if d.full ∧ base = 16 ∧ n ≠ 0 then ['0', letter]
    else []
  d.padNumber (d.zeros ∧ d.precision.isNone) front digits

def decimals : List Char := ['e', 'E', 'f', 'F', 'g', 'G']

def decimal (d : Directive) (letter : Char) (x : Double) : List Char :=
  let upper (cs : List Char) : List Char := if letter.isUpper then cs.map Char.toUpper else cs
  let front := d.signOf x.isNegative
  if !x.isFinite then d.pad
    (front ++ upper (if x.fractionField = 0 then ['i', 'n', 'f'] else ['n', 'a', 'n']))
  else
    let places := d.precision.getD 6
    let digits := match letter.toLower with
      | 'f' => Decimal.fixed x.magnitude places d.full
      | 'e' => Decimal.scientific x.magnitude places d.full
      | _ => Decimal.general x.magnitude places d.full
    d.padNumber d.zeros front (upper digits)

end Directive

/-! ## Filling a format -/

def wholeArgument (signed : Bool) (arg : String) : Int × Bool :=
  match arg.toList with
  | [] => (0, true)
  | c :: cs =>
    if c = '"' ∨ c = '\'' then ((cs.headD '\x00').toNat, true)
    else
      match Integer.read? true (c :: cs) with
      | none => (0, false)
      | some (n, rest) =>
        if signed then (Integer.clamp n, rest.isEmpty && Integer.inRange n)
        else if n.natAbs < Nat.pow 2 64 then (n % Int.pow 2 64, rest.isEmpty)
        else (Int.pow 2 64 - 1, false)

def decimalArgument (arg : String) : Double × Bool :=
  match arg.toList with
  | [] => (default, true)
  | c :: cs =>
    if c = '"' ∨ c = '\'' then (Double.ofFloat (Float.ofNat (cs.headD '\x00').toNat), true)
    else
      match Decimal.read? (c :: cs) with
      | none => (default, false)
      | some (x, rest) => (x, rest.isEmpty)

structure Filled where
  text : List Char := []
  rest : List String
  well : Bool := true
  bad : Bool := false
  ended : Bool := false

namespace Filled

def add (f : Filled) (cs : List Char) : Filled := { f with text := f.text ++ cs }

def next (f : Filled) : String × Filled := (f.rest.headD "", { f with rest := f.rest.tail })

def maxSize : Int := 1000000

def nextSize (f : Filled) : Int × Filled :=
  let (arg, f) := f.next
  let (n, well) := wholeArgument true arg
  (n.bmod (Nat.pow 2 32), { f with well := f.well && well })

def size (f : Filled) (cs : List Char) : Option Int × Filled × List Char :=
  match cs with
  | '*' :: cs => let (n, f) := f.nextSize; (some n, f, cs)
  | cs =>
    match Integer.digits? 10 cs with
    | some (n, rest) => (some (n : Int), f, rest)
    | none => (none, f, cs)

def directive (f : Filled) (cs : List Char) : Directive × Filled × List Char :=
  let (d, cs) := Directive.flags {} cs
  let (width, f, cs) := f.size cs
  let width := min maxSize (width.getD 0)
  let d := { d with left := d.left || width < 0, width := width.natAbs }
  match cs with
  | '.' :: cs =>
    let (precision, f, cs) := f.size cs
    let precision := min maxSize (precision.getD 0)
    ({ d with precision := if precision < 0 then none else some precision.toNat }, f, cs)
  | cs => (d, f, cs)

def place (f : Filled) (d : Directive) (letter : Char) : Filled :=
  match letter with
  | 's' => let (arg, f) := f.next; f.add (d.text arg)
  | 'c' => let (arg, f) := f.next; f.add (d.pad [arg.toList.headD '\x00'])
  | 'b' =>
    let (arg, f) := f.next
    let (done, more) := unescape (arg.length + 1) arg.toList
    { f.add (d.text (String.ofList done)) with ended := !more }
  | letter =>
    match Directive.bases.lookup letter with
    | some base =>
      let (arg, f) := f.next
      let (n, well) := wholeArgument (Directive.isSigned letter) arg
      { f.add (d.number letter base n) with well := f.well && well }
    | none =>
      if Directive.decimals.contains letter then
        let (arg, f) := f.next
        let (x, well) := decimalArgument arg
        { f.add (d.decimal letter x) with well := f.well && well }
      else { f with bad := true }

def pass : (fuel : Nat) → Filled → List Char → Filled
  | 0, f, _ => f
  | _ + 1, f, [] => f
  | fuel + 1, f, '\\' :: cs => let (e, cs) := escaped cs; pass fuel (f.add [e]) cs
  | fuel + 1, f, '%' :: '%' :: cs => pass fuel (f.add ['%']) cs
  | fuel + 1, f, '%' :: cs =>
    match f.directive cs with
    | (_, f, []) => { f with bad := true }
    | (d, f, letter :: cs) =>
      let f := f.place d letter
      if f.bad ∨ f.ended then f else pass fuel f cs
  | fuel + 1, f, c :: cs => pass fuel (f.add [c]) cs

def passes (format : List Char) : (bound : Nat) → Filled → Filled
  | 0, f => f
  | bound + 1, f =>
    let after := pass (format.length + 1) f format
    if after.bad ∨ after.ended ∨ after.rest.isEmpty ∨ after.rest.length = f.rest.length then
      after else passes format bound after

end Filled

def formatted (format : String) (args : List String) : Filled :=
  Filled.passes format.toList (args.length + 1) { rest := args }

end RubyInfer.Program
