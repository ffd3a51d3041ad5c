import RubyInfer.Program.Integer
import RubyInfer.Program.Pattern

/-!
Conditions on texts, numbers and files, as a list of words: operators between two operands or in
front of one, with `!`, `-a`, `-o` and parentheses. An operator that stands where it cannot be meant
is an operand.
-/

namespace RubyInfer.Program.Condition

inductive Role
  | unary | binary | negation | conjunction | disjunction | opening | closing
deriving DecidableEq

def unarySigns : List String :=
  ["-r", "-w", "-x", "-e", "-f", "-d", "-c", "-b", "-p", "-u", "-g", "-k", "-s", "-t", "-z", "-n",
    "-h", "-O", "-G", "-L", "-S"]

def binarySigns : List String :=
  ["=", "!=", "<", ">", "-eq", "-ne", "-ge", "-gt", "-le", "-lt", "-nt", "-ot", "-ef"]

def role? (word : String) : Option Role :=
  if unarySigns.contains word then some .unary
  else if binarySigns.contains word then some .binary
  else
    match word with
    | "!" => some .negation
    | "-a" => some .conjunction
    | "-o" => some .disjunction
    | "(" => some .opening
    | ")" => some .closing
    | _ => none

inductive Token
  | ending
  | operand
  | sign (role : Role)
deriving DecidableEq

def isOperand (words : Array String) (p : Nat) : Bool :=
  match words[p + 1]?, words[p + 2]? with
  | none, _ => true
  | some _, none => false
  | some next, some _ => role? next = some .binary

def tokenAt (words : Array String) (p : Nat) : Token :=
  match words[p]? with
  | none => .ending
  | some word =>
    match role? word with
    | none => .operand
    | some .unary => if isOperand words p then .operand else .sign .unary
    | some .opening => if words[p + 1]?.isNone then .operand else .sign .opening
    | some role => .sign role

structure Facts where
  files : FileTree

namespace Facts

def devices : List String := ["/dev/null", "/dev/stdin", "/dev/stdout", "/dev/stderr"]

def entry? (f : Facts) (name : String) : Option Entry := f.files.entry? (pathOf name)

def unary (f : Facts) (sign word : String) : Option Bool :=
  let isDevice := devices.contains word
  match sign with
  | "-n" => some !word.isEmpty
  | "-z" => some word.isEmpty
  | "-e" | "-r" | "-w" | "-O" | "-G" => some (isDevice || (f.entry? word).isSome)
  | "-f" => some ((f.entry? word).any (fun e => !e.isFolder))
  | "-d" | "-x" => some ((f.entry? word).any Entry.isFolder)
  | "-s" => some ((f.entry? word).any (fun
      | .file content => content.size ≠ 0
      | .folder _ => true))
  | "-c" => some (word = "/dev/null")
  | "-t" => (Integer.whole? false word).map (fun _ => false)
  | _ => some false

def binary (f : Facts) (sign a b : String) : Option Bool :=
  let compare (test : Int → Int → Bool) : Option Bool :=
    do return test (← Integer.whole? false a) (← Integer.whole? false b)
  match sign with
  | "=" => some (a = b)
  | "!=" => some (a ≠ b)
  | "<" => some (decide (a < b))
  | ">" => some (decide (b < a))
  | "-eq" => compare (fun x y => x = y)
  | "-ne" => compare (fun x y => x ≠ y)
  | "-lt" => compare (fun x y => x < y)
  | "-le" => compare (fun x y => x ≤ y)
  | "-gt" => compare (fun x y => x > y)
  | "-ge" => compare (fun x y => x ≥ y)
  | "-ef" =>
    match f.files.resolve (pathOf a), f.files.resolve (pathOf b) with
    | .ok x, .ok y => some (x = y)
    | _, _ => some false
  | _ => some false

end Facts

/-! Every reader gets the place where it begins and what stands there, and gives the value with the
place where it ended. None stands for words that make no condition. -/

mutual
def disjunction (f : Facts) (words : Array String) : (fuel : Nat) → Token → Nat → Option (Bool × Nat)
  | 0, _, _ => none
  | fuel + 1, token, p => do
    let (a, p) ← conjunction f words fuel token p
    if tokenAt words (p + 1) = .sign .disjunction then
      let (b, p) ← disjunction f words fuel (tokenAt words (p + 2)) (p + 2)
      return (a || b, p)
    else return (a, p)

def conjunction (f : Facts) (words : Array String) : (fuel : Nat) → Token → Nat → Option (Bool × Nat)
  | 0, _, _ => none
  | fuel + 1, token, p => do
    let (a, p) ← negation f words fuel token p
    if tokenAt words (p + 1) = .sign .conjunction then
      let (b, p) ← conjunction f words fuel (tokenAt words (p + 2)) (p + 2)
      return (a && b, p)
    else return (a, p)

def negation (f : Facts) (words : Array String) : (fuel : Nat) → Token → Nat → Option (Bool × Nat)
  | 0, _, _ => none
  | fuel + 1, token, p =>
    if token = .sign .negation then
      let next := tokenAt words (p + 1)
      (negation f words fuel next (if next = .ending then p else p + 1)).map (fun (a, p) => (!a, p))
    else primary f words fuel token p

def primary (f : Facts) (words : Array String) : (fuel : Nat) → Token → Nat → Option (Bool × Nat)
  | 0, _, _ => none
  | fuel + 1, token, p =>
    let word := words[p]?.getD ""
    match token with
    | .ending => some (false, p)
    | .sign .opening =>
      let next := tokenAt words (p + 1)
      if next = .sign .closing then some (false, p + 1)
      else do
        let (a, p) ← disjunction f words fuel next (p + 1)
        if tokenAt words (p + 1) = .sign .closing then return (a, p + 1) else none
    | .sign .unary => do return (← f.unary word (← words[p + 1]?), p + 1)
    | _ =>
      if tokenAt words (p + 1) = .sign .binary then do
        return (← f.binary (words[p + 1]?.getD "") word (← words[p + 2]?), p + 2)
      else some (!word.isEmpty, p)
end

def valueFrom? (f : Facts) (words : Array String) (token : Token) : Option Bool := do
  let (a, p) ← disjunction f words (4 * words.size + 4) token 0
  if words[p]?.isSome ∧ words[p + 1]?.isSome then none else some a

/-- The value of a condition. Three words with an operator in the middle are that operator's,
whatever the others are. -/
def value? (f : Facts) : List String → Option Bool
  | [] => some false
  | [a, op, b] =>
    if role? op = some .binary then valueFrom? f #[a, op, b] .operand
    else if a = "(" ∧ b = ")" then valueFrom? f #[op] (tokenAt #[op] 0)
    else if a = "!" then (value? f [op, b]).map not
    else valueFrom? f #[a, op, b] (tokenAt #[a, op, b] 0)
  | [a, b, c, d] =>
    if a = "(" ∧ d = ")" then valueFrom? f #[b, c] (tokenAt #[b, c] 0)
    else if a = "!" then (value? f [b, c, d]).map not
    else valueFrom? f #[a, b, c, d] (tokenAt #[a, b, c, d] 0)
  | words => valueFrom? f words.toArray (tokenAt words.toArray 0)
termination_by words => words.length

def status (f : Facts) (words : List String) : Nat :=
  match value? f words with
  | some true => 0
  | some false => 1
  | none => 2

end RubyInfer.Program.Condition
