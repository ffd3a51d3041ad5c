/-!
Double-precision numbers as exact quantities. A finite double is `m · 2^q`; every text and every
rounding below is computed from `m` and `q` in exact arithmetic.
-/

namespace RubyInfer

structure Double where
  bits : UInt64
deriving DecidableEq, Inhabited

namespace Double

def ofFloat (x : Float) : Double := ⟨x.toBits⟩

def toFloat (x : Double) : Float := Float.ofBits x.bits

def isNegative (x : Double) : Bool := x.bits >>> 63 == 1

def neg (x : Double) : Double := ⟨x.bits ^^^ ((1 : UInt64) <<< 63)⟩

def exponentField (x : Double) : Nat := ((x.bits >>> 52) &&& 0x7ff).toNat

def fractionField (x : Double) : Nat := (x.bits &&& 0xfffffffffffff).toNat

def isFinite (x : Double) : Bool := x.exponentField != 2047

def significand (x : Double) : Nat :=
  if x.exponentField = 0 then x.fractionField else x.fractionField + Nat.pow 2 52

def exponent (x : Double) : Int :=
  if x.exponentField = 0 then -1074 else (x.exponentField : Int) - 1075

structure Ratio where
  num : Nat
  den : Nat

def Ratio.scaled (n base : Nat) (e : Int) : Ratio :=
  match e with
  | .ofNat k => ⟨n * Nat.pow base k, 1⟩
  | .negSucc k => ⟨n, Nat.pow base (k + 1)⟩

def Ratio.le (a b : Ratio) : Bool := a.num * b.den ≤ b.num * a.den

def Ratio.lt (a b : Ratio) : Bool := a.num * b.den < b.num * a.den

def magnitude (x : Double) : Ratio := .scaled x.significand 2 x.exponent

def floor (x : Double) : Nat :=
  if x.isNegative then 0 else x.magnitude.num / x.magnitude.den

structure Decimal where
  digits : Nat
  scale : Int
deriving DecidableEq

def Decimal.trim : Nat → Decimal → Decimal
  | 0, d => d
  | bound + 1, d =>
    if d.digits ≠ 0 ∧ d.digits % 10 = 0 then trim bound ⟨d.digits / 10, d.scale + 1⟩ else d

def Decimal.leading (d : Decimal) : Int := d.scale + (Nat.repr d.digits).length - 1

def Ratio.leading (r : Ratio) : Int :=
  if r.den ≤ r.num then ((Nat.repr (r.num / r.den)).length : Int) - 1
  else
    match (List.range 400).find? (fun j => r.den ≤ r.num * Nat.pow 10 (j + 1)) with
    | some j => -((j : Int) + 1)
    | none => -400

/-- The numbers that round to a given double: everything between `low` and `high`, the ends
belonging when `closed`. -/
structure Rounding where
  low : Ratio
  high : Ratio
  closed : Bool

def Rounding.holds (i : Rounding) (r : Ratio) : Bool :=
  if i.closed then i.low.le r && r.le i.high else i.low.lt r && r.lt i.high

def rounding (x : Double) : Rounding :=
  let m := x.significand
  let q := x.exponent - 2
  let step := if x.fractionField = 0 ∧ 1 < x.exponentField then 1 else 2
  ⟨.scaled (4 * m - step) 2 q, .scaled (4 * m + 2) 2 q, m % 2 == 0⟩

def shortestWith (x : Double) (count : Nat) : Option Decimal :=
  let r := x.magnitude
  let scale := r.leading + 1 - count
  let unit := Ratio.scaled 1 10 scale
  let below := r.num * unit.den / (r.den * unit.num)
  let point (d : Nat) : Ratio := Ratio.scaled d 10 scale
  let inside := x.rounding
  match inside.holds (point below), inside.holds (point (below + 1)) with
  | false, false => none
  | true, false => some ⟨below, scale⟩
  | false, true => some ⟨below + 1, scale⟩
  | true, true =>
    let twice := 2 * r.num * unit.den
    let middle := (2 * below + 1) * (r.den * unit.num)
    if twice < middle then some ⟨below, scale⟩
    else if middle < twice then some ⟨below + 1, scale⟩
    else some ⟨below + below % 2, scale⟩

def shortest (x : Double) : Decimal :=
  if x.significand = 0 then ⟨0, 0⟩
  else ((List.range 17).findSome? (fun n => x.shortestWith (n + 1))).getD ⟨0, 0⟩ |>.trim 17

def Decimal.plain (d : Decimal) : String :=
  let text := Nat.repr d.digits
  match d.scale with
  | .ofNat k => text ++ String.ofList (List.replicate k '0') ++ ".0"
  | .negSucc k =>
    let places := k + 1
    let padded := String.ofList (List.replicate (places + 1 - text.length) '0') ++ text
    let cs := padded.toList
    String.ofList (cs.take (cs.length - places)) ++ "." ++ String.ofList (cs.drop (cs.length - places))

def Decimal.scientific (d : Decimal) : String :=
  let fraction := (Nat.repr d.digits).toList.drop 1
  let head := String.ofList ((Nat.repr d.digits).toList.take 1)
  let mantissa := if fraction.isEmpty then head else head ++ "." ++ String.ofList fraction
  let sign := if d.leading < 0 then "-" else "+"
  mantissa ++ "e" ++ sign ++ Nat.repr d.leading.natAbs

def text (x : Double) : String :=
  let d := x.shortest
  let unsigned := if -5 ≤ d.leading ∧ d.leading ≤ 15 then d.plain else d.scientific
  if x.isNegative then "-" ++ unsigned else unsigned

def tenths (x : Double) : String :=
  let r := x.magnitude
  let below := r.num * 10 / r.den
  let rest := r.num * 10 % r.den
  let rounded :=
    if 2 * rest < r.den then below
    else if r.den < 2 * rest then below + 1
    else below + below % 2
  Nat.repr (rounded / 10) ++ "." ++ Nat.repr (rounded % 10)

end Double

end RubyInfer
