import RubyInfer.Toml.Scalar

/-!
TOML documents: headers and assignments line by line, with arrays and tables as nested values.
-/

namespace RubyInfer.Toml

def maxNesting : Nat := 80

def maxKeys : Nat := 80

def skipBlanks (cs : List Char) : List Char := cs.dropWhile isBlank

def skipComment : List Char → Option (List Char)
  | '#' :: cs =>
    let rest := cs.dropWhile (fun c => !isControl c)
    match rest with
    | [] => some []
    | _ => if (newline? rest).isSome then some rest else none
  | cs => some cs

def skipLines : (fuel : Nat) → List Char → Option (List Char)
  | 0, _ => none
  | fuel + 1, cs => do
    let cs ← skipComment (skipBlanks cs)
    match newline? cs with
    | some rest => skipLines fuel rest
    | none => return cs

def trivia (cs : List Char) : Option (List Char) := skipLines (cs.length + 1) cs

/-! ## Keys -/

def isBare (c : Char) : Bool := ('a' ≤ c ∧ c ≤ 'z') ∨ ('A' ≤ c ∧ c ≤ 'Z') ∨ isDigit c ∨ c = '-' ∨ c = '_'

def simpleKey : Reader String := fun cs =>
  match cs with
  | '"' :: rest => lineString '"' true (rest.length + 1) [] rest
  | '\'' :: rest => lineString '\'' false (rest.length + 1) [] rest
  | _ =>
    let name := cs.takeWhile isBare
    if name.isEmpty then none else some (String.ofList name, cs.drop name.length)

def keyPath : (count : Nat) → Reader (List String)
  | 0, _ => none
  | count + 1, cs => do
    let (key, cs) ← simpleKey cs
    match skipBlanks cs with
    | '.' :: rest =>
      let (keys, cs) ← keyPath count (skipBlanks rest)
      return (key :: keys, cs)
    | cs => return ([key], cs)

def key : Reader (List String) := keyPath maxKeys

/-! ## Values -/

def pairWith (gap : List Char → Option (List Char)) (value : Reader Value) :
    Reader (List String × Value) := fun cs => do
  let (path, cs) ← key cs
  let ((), cs) ← expect '=' (← gap cs)
  let (v, cs) ← value (← gap cs)
  return ((path, v), cs)

def itemsWith {α : Type} (item : Reader α) (close : Char) : (fuel : Nat) → Reader (List α)
  | 0, _ => none
  | fuel + 1, cs => do
    let cs ← trivia cs
    if cs.head? = some close then return ([], cs.drop 1)
    let (x, cs) ← item cs
    let cs ← trivia cs
    match cs with
    | ',' :: rest =>
      let (xs, cs) ← itemsWith item close fuel rest
      return (x :: xs, cs)
    | c :: rest => if c = close then return ([x], rest) else none
    | [] => none

def scalar : Reader Value := fun cs =>
  match cs with
  | '"' :: _ => (string cs).map (fun (s, cs) => (.string s, cs))
  | '\'' :: _ => (string cs).map (fun (s, cs) => (.string s, cs))
  | _ => plain cs

/-- A value whose nested values are read by `value`. Inside of brackets and braces a line may end
anywhere but within a key. -/
def valueWith (value : Reader Value) : Reader Value := fun cs =>
  match cs with
  | '[' :: rest => (itemsWith value ']' (rest.length + 1) rest).map (fun (items, cs) => (.array items, cs))
  | '\x7b' :: rest => do
    let (entries, cs) ← itemsWith (pairWith trivia value) '\x7d' (rest.length + 1) rest
    return (← inlineTable entries, cs)
  | _ => scalar cs

def valueWithin : (levels : Nat) → Reader Value
  | 0, cs => scalar cs
  | levels + 1, cs => valueWith (valueWithin levels) cs

def value : Reader Value := valueWithin maxNesting

/-! ## Documents -/

def header : Reader Statement := fun cs => do
  let ((), cs) ← expect '[' cs
  match cs with
  | '[' :: rest =>
    let (path, cs) ← key (skipBlanks rest)
    let ((), cs) ← expect ']' (skipBlanks cs)
    let ((), cs) ← expect ']' cs
    return (.element path, cs)
  | rest =>
    let (path, cs) ← key (skipBlanks rest)
    let ((), cs) ← expect ']' (skipBlanks cs)
    return (.table path, cs)

def statement : Reader Statement := fun cs =>
  match cs with
  | '[' :: _ => header cs
  | _ => (pairWith (some ∘ skipBlanks) value cs).map (fun ((path, v), cs) => (.assign path v, cs))

def endOfLine (cs : List Char) : Option (List Char) := do
  let cs ← skipComment (skipBlanks cs)
  match cs with
  | [] => return []
  | _ => newline? cs

def statements : (fuel : Nat) → List Char → Option (List Statement)
  | 0, _ => none
  | fuel + 1, cs => do
    let cs ← trivia cs
    match cs with
    | [] => return []
    | _ =>
      let (s, cs) ← statement cs
      let cs ← endOfLine cs
      return s :: (← statements fuel cs)

def skipMark : List Char → List Char
  | c :: cs => if c.toNat = 0xfeff then cs else c :: cs
  | [] => []

def read? (text : String) : Option Fields := do
  let cs := skipMark text.toList
  build (← statements (cs.length + 1) cs)

end RubyInfer.Toml
