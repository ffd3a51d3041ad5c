import RubyInfer.Program.Integer

/-!
Sums in whole numbers of 64 bits, as scripts write them: signs, products, sums, shifts, comparisons,
bits, conditions, and settings of variables.
-/

namespace RubyInfer.Program

inductive Sum
  | number (n : Int64)
  | name (s : String)
  | unary (sign : Char) (a : Sum)
  | binary (sign : String) (a b : Sum)
  | both (a b : Sum)
  | either (a b : Sum)
  | choice (test a b : Sum)
  /-- Sets a variable, with an operator to what it was and the new value, or without one to the new
  value. -/
  | setting (name : String) (sign : Option String) (value : Sum)
deriving Inhabited

namespace Sum

/-! ## Reading -/

inductive Token
  | number (n : Int64)
  | name (s : String)
  | sign (s : String)
deriving DecidableEq

def signs : List String :=
  ["<<=", ">>=", "==", "!=", "<=", ">=", "<<", ">>", "&&", "||", "+=", "-=", "*=", "/=", "%=", "&=",
    "|=", "^=", "=", "<", ">", "!",
   "~", "(", ")", "*", "/", "%", "+", "-", "&", "|", "^", "?", ":"]

def isNameStart (c : Char) : Bool := c.isAlpha ∨ c = '_'

def isNameChar (c : Char) : Bool := c.isAlphanum ∨ c = '_'

def after? : List Char → List Char → Option (List Char)
  | [], cs => some cs
  | _ :: _, [] => none
  | p :: ps, c :: cs => if p = c then after? ps cs else none

def signAt? (cs : List Char) : Option (Token × List Char) :=
  signs.findSome? (fun s => (after? s.toList cs).map (fun rest => (Token.sign s, rest)))

def tokens? : (fuel : Nat) → List Char → Option (List Token)
  | 0, _ => none
  | _ + 1, [] => some []
  | fuel + 1, c :: cs =>
    if c = ' ' ∨ c = '\t' ∨ c = '\n' then tokens? fuel cs
    else if c.isDigit then do
      let (n, rest) ← Integer.unsigned? true (c :: cs)
      return .number (Int64.ofInt (Integer.clamp n)) :: (← tokens? fuel rest)
    else if isNameStart c then do
      let name := (c :: cs).takeWhile isNameChar
      return .name (String.ofList name) :: (← tokens? fuel ((c :: cs).drop name.length))
    else do
      let (t, rest) ← signAt? (c :: cs)
      return t :: (← tokens? fuel rest)

def ranks : List (String × Nat) :=
  [("*", 0), ("/", 0), ("%", 0), ("+", 1), ("-", 1), ("<<", 2), (">>", 2), ("<", 3), ("<=", 3),
    (">", 3), (">=", 3), ("==", 4),
   ("!=", 4), ("&", 5), ("^", 6), ("|", 7)]

def loosest : Nat := 7

def settingSigns : List (String × Option String) :=
  [("=", none), ("+=", some "+"), ("-=", some "-"), ("*=", some "*"), ("/=", some "/"),
    ("%=", some "%"), ("<<=", some "<<"),
   (">>=", some ">>"), ("&=", some "&"), ("^=", some "^"), ("|=", some "|")]

abbrev Reader := List Token → Option (Sum × List Token)

def chain (operand : Reader) (rank : Nat) : (fuel : Nat) → Sum → Reader
  | 0, a, ts => some (a, ts)
  | fuel + 1, a, .sign s :: ts =>
    if ranks.lookup s = some rank then do
      let (b, rest) ← operand ts
      chain operand rank fuel (.binary s a b) rest
    else some (a, .sign s :: ts)
  | _ + 1, a, ts => some (a, ts)

def ranked (primary : Reader) : (rank : Nat) → Reader
  | 0, ts => do
    let (a, rest) ← primary ts
    chain primary 0 rest.length a rest
  | rank + 1, ts => do
    let (a, rest) ← ranked primary rank ts
    chain (ranked primary rank) (rank + 1) rest.length a rest

mutual
def whole : (fuel : Nat) → Reader
  | 0, _ => none
  | fuel + 1, .name x :: .sign s :: ts =>
    match settingSigns.lookup s with
    | some operator => do
      let (v, rest) ← whole fuel ts
      return (.setting x operator v, rest)
    | none => condition fuel (.name x :: .sign s :: ts)
  | fuel + 1, ts => condition fuel ts

def condition : (fuel : Nat) → Reader
  | 0, _ => none
  | fuel + 1, ts => do
    let (test, rest) ← disjunction fuel ts
    match rest with
    | .sign "?" :: rest =>
      let (a, rest) ← whole fuel rest
      match rest with
      | .sign ":" :: rest =>
        let (b, rest) ← condition fuel rest
        return (.choice test a b, rest)
      | _ => none
    | rest => return (test, rest)

def disjunction : (fuel : Nat) → Reader
  | 0, _ => none
  | fuel + 1, ts => do
    let (a, rest) ← conjunction fuel ts
    match rest with
    | .sign "||" :: rest =>
      let (b, rest) ← disjunction fuel rest
      return (.either a b, rest)
    | rest => return (a, rest)

def conjunction : (fuel : Nat) → Reader
  | 0, _ => none
  | fuel + 1, ts => do
    let (a, rest) ← ranked (primary fuel) loosest ts
    match rest with
    | .sign "&&" :: rest =>
      let (b, rest) ← conjunction fuel rest
      return (.both a b, rest)
    | rest => return (a, rest)

def primary : (fuel : Nat) → Reader
  | 0, _ => none
  | _ + 1, .number n :: rest => some (.number n, rest)
  | _ + 1, .name x :: rest => some (.name x, rest)
  | fuel + 1, .sign "(" :: ts => do
    let (a, rest) ← whole fuel ts
    match rest with
    | .sign ")" :: rest => some (a, rest)
    | _ => none
  | fuel + 1, .sign "+" :: ts => primary fuel ts
  | fuel + 1, .sign "-" :: ts => (primary fuel ts).map (fun (a, rest) => (.unary '-' a, rest))
  | fuel + 1, .sign "!" :: ts => (primary fuel ts).map (fun (a, rest) => (.unary '!' a, rest))
  | fuel + 1, .sign "~" :: ts => (primary fuel ts).map (fun (a, rest) => (.unary '~' a, rest))
  | _ + 1, _ => none
end

def read? (text : String) : Option Sum := do
  let ts ← tokens? (text.length + 1) text.toList
  match ← whole (5 * ts.length + 5) ts with
  | (a, []) => some a
  | _ => none

/-! ## Values -/

def truth (b : Bool) : Int64 := if b then 1 else 0

def combined? (sign : String) (a b : Int64) : Option Int64 :=
  match sign with
  | "*" => some (a * b)
  | "/" => if b = 0 then none else some (a / b)
  | "%" => if b = 0 then none else some (a % b)
  | "+" => some (a + b)
  | "-" => some (a - b)
  | "<<" => some (a <<< b)
  | ">>" => some (a >>> b)
  | "<" => some (truth (a < b))
  | "<=" => some (truth (a ≤ b))
  | ">" => some (truth (b < a))
  | ">=" => some (truth (b ≤ a))
  | "==" => some (truth (a = b))
  | "!=" => some (truth (a ≠ b))
  | "&" => some (a &&& b)
  | "^" => some (a ^^^ b)
  | "|" => some (a ||| b)
  | _ => none

abbrev Settings := List (String × Int64)

def valueOf? (before : String → Option String) (made : Settings) (name : String) : Option Int64 :=
  match made.lookup name with
  | some n => some n
  | none =>
    let text := (before name).getD ""
    if text.toList.all Integer.isBlank then some 0 else (Integer.whole? true text).map Int64.ofInt

def value? (before : String → Option String) : Sum → Settings → Option (Int64 × Settings)
  | .number n, made => some (n, made)
  | .name x, made => (valueOf? before made x).map (fun n => (n, made))
  | .unary sign a, made => do
    let (n, made) ← a.value? before made
    return (if sign = '-' then -n else if sign = '~' then ~~~n else truth (n = 0), made)
  | .binary sign a b, made => do
    let (n, made) ← a.value? before made
    let (m, made) ← b.value? before made
    return (← combined? sign n m, made)
  | .both a b, made => do
    let (n, made) ← a.value? before made
    if n = 0 then return (0, made)
    let (m, made) ← b.value? before made
    return (truth (m ≠ 0), made)
  | .either a b, made => do
    let (n, made) ← a.value? before made
    if n ≠ 0 then return (1, made)
    let (m, made) ← b.value? before made
    return (truth (m ≠ 0), made)
  | .choice test a b, made => do
    let (n, made) ← test.value? before made
    if n ≠ 0 then a.value? before made else b.value? before made
  | .setting x sign v, made => do
    let (m, made) ← v.value? before made
    let new ← match sign with
      | none => some m
      | some sign => do combined? sign (← valueOf? before made x) m
    return (new, (x, new) :: made)

end Sum

end RubyInfer.Program
