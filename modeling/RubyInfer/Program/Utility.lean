import RubyInfer.Program.Format
import RubyInfer.Program.Pattern

/-!
The utilities that a dumper may be made of. A run prints, complains, ends well or not, and takes its
time. Words are texts of octets.
-/

namespace RubyInfer.Program

structure Outcome where
  output : ByteArray := .empty
  errors : ByteArray := .empty
  status : Nat := 0
  millis : Nat := 0
  taken : Nat := 0
deriving Inhabited

namespace Outcome

def failure (status : Nat) (complaint : String) : Outcome :=
  { errors := Octets.toBytes (complaint ++ "\n"), status }

def print (text : String) : Outcome := { output := Octets.toBytes text }

def andThen (a b : Outcome) : Outcome :=
  ⟨a.output ++ b.output, a.errors ++ b.errors, b.status, a.millis + b.millis, a.taken + b.taken⟩

end Outcome

structure Context where
  files : FileTree
  input : Option ByteArray := some .empty
  stream? : Nat → Option ByteArray := fun _ => none
  target : Option (List String) := none

def streamDevice? (name : String) : Option Nat :=
  match name with
  | "/dev/stdin" => some 0
  | "/dev/stdout" => some 1
  | "/dev/stderr" => some 2
  | name => if name.startsWith "/dev/fd/" then (name.drop 8).toString.toNat? else none

def Context.read (c : Context) (name : String) : Except FileError ByteArray :=
  if name = "/dev/null" then .ok .empty
  else
    match streamDevice? name with
    | some n => (c.stream? n).elim (.error .notFound) .ok
    | none => c.files.read (pathOf name)

/-! ## Words of a command line -/

/-- Options and operands in any order; after two dashes all are operands. `read` takes an option in,
or refuses it. -/
def operands? {σ : Type} (read : σ → String → Option σ) : σ → List String → Option (σ × List String)
  | s, [] => some (s, [])
  | s, "--" :: rest => some (s, rest)
  | s, arg :: rest =>
    if arg.startsWith "-" ∧ arg ≠ "-" then do operands? read (← read s arg) rest
    else (operands? read s rest).map (fun (s, names) => (s, arg :: names))

def abbreviated? (names : List String) (text : String) : Option String :=
  if names.contains text then some text
  else
    match names.filter (·.startsWith text) with
    | [name] => some name
    | _ => none

/-! ## Printing files -/

structure Copying where
  number : Bool := false
  numberFilled : Bool := false
  showEnds : Bool := false
  showTabs : Bool := false
  showHidden : Bool := false
  squeeze : Bool := false
  about : Bool := false

namespace Copying

def letter? (s : Copying) : Char → Option Copying
  | 'A' => some { s with showHidden := true, showEnds := true, showTabs := true }
  | 'b' => some { s with numberFilled := true }
  | 'e' => some { s with showHidden := true, showEnds := true }
  | 'E' => some { s with showEnds := true }
  | 'n' => some { s with number := true }
  | 's' => some { s with squeeze := true }
  | 't' => some { s with showHidden := true, showTabs := true }
  | 'T' => some { s with showTabs := true }
  | 'u' => some s
  | 'v' => some { s with showHidden := true }
  | _ => none

def longNames : List (String × Char) :=
  [("show-all", 'A'), ("number-nonblank", 'b'), ("show-ends", 'E'), ("number", 'n'),
    ("squeeze-blank", 's'), ("show-tabs", 'T'),
   ("show-nonprinting", 'v')]

def option? (s : Copying) (arg : String) : Option Copying :=
  match arg.toList with
  | '-' :: '-' :: name => do
    let name ← abbreviated? (longNames.map Prod.fst ++ ["help", "version"]) (String.ofList name)
    match longNames.lookup name with
    | some c => s.letter? c
    | none => some { s with about := true }
  | _ :: letters => letters.foldlM letter? s
  | [] => none

def isPlain (s : Copying) : Bool :=
  !(s.number || s.numberFilled || s.showEnds || s.showTabs || s.showHidden || s.squeeze)

def lowByte (b : Nat) : List Nat := if b < 32 then [94, b + 64] else if b = 127 then [94, 63] else [b]

/-- How a byte is shown before another one, if there is one. Where ends of lines are shown, so is
the return before one. -/
def showByte (s : Copying) (b : Nat) (next : Option UInt8) : List Nat :=
  if b = 9 then if s.showTabs then [94, 73] else [9]
  else if b = 13 ∧ s.showEnds ∧ next = some 10 then lowByte b
  else if !s.showHidden then [b]
  else if b < 128 then lowByte b
  else [77, 45] ++ lowByte (b - 128)

def lineNumber (n : Nat) : List Nat :=
  let digits := (Nat.repr n).toList.map Char.toNat
  List.replicate (6 - digits.length) 32 ++ digits ++ [9]

/-- Where a copy stands: the number of the last numbered line, whether a line begins, and how many
blank lines came before. -/
structure Place where
  line : Nat := 0
  begins : Bool := true
  blanks : Nat := 0

def step (s : Copying) (p : Place) (b : Nat) (next : Option UInt8) : List Nat × Place :=
  let ending : List Nat := if s.showEnds then [36, 10] else [10]
  if b = 10 then
    if !p.begins then (ending, { p with begins := true, blanks := 0 })
    else if s.squeeze ∧ 0 < p.blanks then ([], p)
    else if s.number ∧ !s.numberFilled then
      (lineNumber (p.line + 1) ++ ending, { p with line := p.line + 1, blanks := 1 })
    else (ending, { p with blanks := 1 })
  else
    let shown := s.showByte b next
    if p.begins ∧ (s.number ∨ s.numberFilled) then
      (lineNumber (p.line + 1) ++ shown, { line := p.line + 1, begins := false, blanks := 0 })
    else (shown, { p with begins := false, blanks := 0 })

def render (s : Copying) (bytes : ByteArray) : ByteArray :=
  if s.isPlain then bytes
  else
    let add (state : ByteArray × Place) (b : UInt8 × Option UInt8) : ByteArray × Place :=
      let (shown, p) := s.step state.2 b.1.toNat b.2
      (shown.foldl (fun out n => out.push n.toUInt8) state.1, p)
    let list := bytes.data.toList
    ((list.zip (list.tail.map some ++ [none])).foldl add (.empty, {})).1

end Copying

def copyOne (c : Context) (first : Bool) (arg : String) : Outcome :=
  if arg = "-" then
    match c.input with
    | some content => if first then { output := content, taken := content.size } else {}
    | none => .failure 1 "cat: -: Bad file descriptor"
  else
    match c.read arg with
    | .ok content =>
      if content.size ≠ 0 ∧ c.target.isSome ∧ (c.files.resolve (pathOf arg)).toOption = c.target then
        .failure 1 ("cat: " ++ arg ++ ": input file is output file")
      else { output := content }
    | .error e => .failure 1 ("cat: " ++ arg ++ ": " ++ e.reason)

def copyAll (c : Context) : (first : Bool) → List String → List Outcome
  | _, [] => []
  | first, arg :: rest => copyOne c first arg :: copyAll c (first && arg ≠ "-") rest

/-- Prints files one after the other. A file that cannot be read makes the run fail, and the others
are still printed. -/
def copy (c : Context) (args : List String) : Outcome :=
  match operands? Copying.option? {} args with
  | none => .failure 1 "cat: invalid option"
  | some (s, names) =>
    if s.about then .print "Usage: cat [OPTION]... [FILE]...\n"
    else
      let runs := copyAll c true (if names.isEmpty then ["-"] else names)
      let all := runs.foldl Outcome.andThen {}
      { all with output := s.render all.output, status := if runs.any (fun r => r.status ≠ 0) then 1 else 0 }

/-! ## Parts of files -/

def splitLines : List UInt8 → List (List UInt8)
  | [] => []
  | b :: bs =>
    if b = 10 then [b] :: splitLines bs
    else
      match splitLines bs with
      | [] => [[b]]
      | line :: rest => (b :: line) :: rest

structure Extent where
  bytes : Bool := false
  count : Nat := 10
  allBut : Bool := false
  onward : Bool := false

namespace Extent

def sized? (bytes : Bool) (text : String) : Option Extent :=
  match text.toList with
  | '-' :: cs => (String.ofList cs).toNat?.map (fun count => { bytes, count, allBut := true })
  | '+' :: cs => (String.ofList cs).toNat?.map (fun count => { bytes, count, onward := true })
  | _ => text.toNat?.map (fun count => { bytes, count })

def read? : Extent → List String → Option (Extent × List String)
  | _, "-n" :: n :: rest => do read? (← sized? false n) rest
  | _, "-c" :: n :: rest => do read? (← sized? true n) rest
  | e, "-q" :: rest => read? e rest
  | e, "--" :: rest => some (e, rest)
  | e, arg :: rest =>
    match arg.toList with
    | '-' :: 'n' :: n => do read? (← sized? false (String.ofList n)) rest
    | '-' :: 'c' :: n => do read? (← sized? true (String.ofList n)) rest
    | '-' :: d :: n => if d.isDigit then do read? (← sized? false (String.ofList (d :: n))) rest else none
    | _ => some (e, arg :: rest)
  | e, [] => some (e, [])

def first {α : Type} (e : Extent) (xs : List α) : List α :=
  if e.allBut then xs.take (xs.length - e.count) else xs.take e.count

def last {α : Type} (e : Extent) (xs : List α) : List α :=
  if e.onward then xs.drop (e.count - 1) else xs.drop (xs.length - e.count)

def part (e : Extent) (atEnd : Bool) (bytes : List UInt8) : List UInt8 :=
  let lines := splitLines bytes
  match e.bytes, atEnd with
  | true, true => e.last bytes
  | true, false => e.first bytes
  | false, true => (e.last lines).flatten
  | false, false => (e.first lines).flatten

end Extent

def part (atEnd : Bool) (c : Context) (args : List String) : Outcome :=
  match Extent.read? {} args with
  | none => .failure 1 "invalid option"
  | some (e, names) =>
    let all := copy { c with target := none } ("--" :: names.take 1)
    let bytes := e.part atEnd all.output.data.toList
    { all with output := ⟨bytes.toArray⟩, taken := if atEnd then all.taken else min all.taken bytes.length }

/-! ## Printing text -/

def plainEcho (args : List String) : Outcome :=
  let options := args.takeWhile (fun a => a.startsWith "-" ∧ a ≠ "-" ∧
    (a.toList.drop 1).all (fun c => c = 'n' ∨ c = 'e' ∨ c = 'E'))
  let words := args.drop options.length
  let letters := options.flatMap String.toList
  let last := letters.filter (fun c => c = 'e' ∨ c = 'E')
  if last.getLast? = some 'e' then .print (echoed (if letters.contains 'n' then "-n" :: words else words))
  else .print (" ".intercalate words ++ (if letters.contains 'n' then "" else "\n"))

def printf (args : List String) : Outcome :=
  let fill (format : String) (rest : List String) : Outcome :=
    let f := formatted format rest
    { Outcome.print (String.ofList f.text) with status := if f.bad then 2 else if f.well then 0 else 1 }
  match args with
  | [] | ["--"] => .failure 2 "printf: usage: printf format [arg ...]"
  | "--" :: format :: rest => fill format rest
  | format :: rest =>
    if format.startsWith "-" ∧
      format ≠ "-" then .failure 2 ("printf: Illegal option " ++ (format.take 2).toString) else
      fill format rest

/-! ## Time -/

def unitMillis? : List Char → Option Nat
  | [] | ['s'] => some 1000
  | ['m'] => some 60000
  | ['h'] => some 3600000
  | ['d'] => some 86400000
  | _ => none

def duration? (text : String) : Option Nat := do
  let cs := text.toList
  let whole := cs.takeWhile Char.isDigit
  let (fraction, cs) : List Char × List Char := match cs.drop whole.length with
    | '.' :: rest => (rest.takeWhile Char.isDigit, rest.dropWhile Char.isDigit)
    | rest => ([], rest)
  if whole.isEmpty ∧ fraction.isEmpty then none
  let unit ← unitMillis? cs
  let number := (whole ++ fraction).foldl (fun n c => n * 10 + (c.toNat - 48)) 0
  return number * unit / Nat.pow 10 fraction.length

def sleep (args : List String) : Outcome :=
  match args.mapM duration? with
  | some (d :: ds) => { millis := (d :: ds).foldr (· + ·) 0 }
  | _ => .failure 1 "sleep: invalid time interval"

/-! ## Names -/

def baseName (args : List String) : Outcome :=
  match args with
  | name :: rest =>
    let base := ((Path.mk name).lastPiece?.map Prod.snd).getD (if name.isEmpty then "" else "/")
    let tail := rest.headD ""
    .print ((if base.endsWith tail ∧ base ≠ tail then (base.dropEnd tail.length).toString else base) ++ "\n")
  | [] => .failure 1 "basename: missing operand"

def folderName (args : List String) : Outcome :=
  match args with
  | name :: _ =>
    match (Path.mk name).lastPiece? with
    | none => .print (if name.isEmpty then ".\n" else "/\n")
    | some (before, _) =>
      match (before.reverse.dropWhile (· = "")).reverse with
      | [] => .print (if name.startsWith "/" then "/\n" else ".\n")
      | kept => .print ("/".intercalate kept ++ "\n")
  | [] => .failure 1 "dirname: missing operand"

def utility? (name : String) : Option (Context → List String → Outcome) :=
  match name with
  | "cat" => some copy
  | "head" => some (part false)
  | "tail" => some (part true)
  | "true" => some (fun _ _ => {})
  | "false" => some (fun _ _ => { status := 1 })
  | "echo" => some (fun _ args => plainEcho args)
  | "printf" => some (fun _ args => printf args)
  | "sleep" => some (fun _ args => sleep args)
  | "basename" => some (fun _ args => baseName args)
  | "dirname" => some (fun _ args => folderName args)
  | _ => none

def bareName (name : String) : String :=
  match (Path.mk name).pieces with
  | ["", "bin", base] => base
  | ["", "usr", "bin", base] => base
  | _ => name

end RubyInfer.Program
