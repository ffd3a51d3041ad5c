/-!
Whole numbers as they are written on command lines: blanks, a sign, and digits of base ten or of the
base that they begin with.
-/

namespace RubyInfer.Program.Integer

def isBlank (c : Char) : Bool := c = ' ' ∨ ('\x09' ≤ c ∧ c ≤ '\x0d')

def digitValue? (c : Char) : Option Nat :=
  if c.isDigit then some (c.toNat - 48)
  else if 'a' ≤ c ∧ c ≤ 'f' then some (c.toNat - 87)
  else if 'A' ≤ c ∧ c ≤ 'F' then some (c.toNat - 55)
  else none

def isDigitOf (base : Nat) (c : Char) : Bool := (digitValue? c).any (· < base)

def digits? (base : Nat) (cs : List Char) : Option (Nat × List Char) :=
  let ds := cs.takeWhile (isDigitOf base)
  if ds.isEmpty then none
  else some ((ds.filterMap digitValue?).foldl (fun n d => n * base + d) 0, cs.drop ds.length)

def unsigned? (anyBase : Bool) (cs : List Char) : Option (Nat × List Char) :=
  if !anyBase then digits? 10 cs
  else
    match cs with
    | '0' :: x :: rest =>
      if x = 'x' ∨ x = 'X' then (digits? 16 rest).getD (0, x :: rest) else digits? 8 cs
    | '0' :: _ => digits? 8 cs
    | _ => digits? 10 cs

def sign : List Char → Bool × List Char
  | '-' :: cs => (true, cs)
  | '+' :: cs => (false, cs)
  | cs => (false, cs)

def read? (anyBase : Bool) (cs : List Char) : Option (Int × List Char) := do
  let (negative, cs) := sign (cs.dropWhile isBlank)
  let (n, rest) ← unsigned? anyBase cs
  return (if negative then -(n : Int) else n, rest)

def least : Int := -(Int.pow 2 63)

def greatest : Int := Int.pow 2 63 - 1

def inRange (n : Int) : Bool := least ≤ n ∧ n ≤ greatest

def clamp (n : Int) : Int := max least (min greatest n)

def whole? (anyBase : Bool) (text : String) : Option Int := do
  let (n, rest) ← read? anyBase text.toList
  if rest.all isBlank ∧ inRange n then some n else none

end RubyInfer.Program.Integer
