import RubyInfer.Program.Condition
import RubyInfer.Program.Script
import RubyInfer.Program.Stream
import RubyInfer.Program.Sum
import RubyInfer.Program.Utility

/-!
A shell between two steps of a script: its parameters, streams, traps and jobs, and the commands
that it runs by itself. Words and texts are octets.
-/

namespace RubyInfer.Program

inductive Halt
  | exit
  /-- An error ends the script, unless it is one of a command that may fail. -/
  | failed
  | returning
  | leave (loops : Nat)
  /-- So many loops are left, and the last one goes on. -/
  | next (loops : Nat)
  | killed
deriving DecidableEq

structure Variable where
  value : Option String := none
  exported : Bool := false
  fixed : Bool := false
deriving Inhabited

structure Job where
  number : Nat
  ends : Nat
  status : Nat

structure Shell where
  world : World
  working : List String := []
  name : String := "sh"
  args : List String := []
  bound : List (String × Variable) := []
  functions : List (String × Command) := []
  aliases : Aliases := []
  flags : List Char := []
  status : Nat := 0
  substituted : Nat := 0
  clock : Nat := 0
  descriptors : List (Nat × Nat) := [(0, 0), (1, 1), (2, 2)]
  halt : Option Halt := none
  loops : Nat := 0
  depth : Nat := 0
  /-- Inside a function: the variables that get back what they were. -/
  locals : Option (List (String × Option Variable)) := none
  /-- What is run when a signal comes, by its number; an empty text for signals that are ignored,
  and 0 for the end. -/
  traps : List (Nat × String) := []
  outerTraps : List (Nat × String) := []
  number : Nat := 0
  process : Nat := 0
  jobs : List Job := []
  lastJob : Option Nat := none
  /-- How far into a word of options the search for options has come. -/
  optionPlace : Option Nat := none

abbrev Running := StateT Shell Option

namespace Shell

def files (s : Shell) : FileTree := { s.world.files with working := s.working }

def setFiles (s : Shell) (files : FileTree) : Shell := { s with world := { s.world with files } }

def hasFlag (s : Shell) (c : Char) : Bool := s.flags.contains c

def isInner (s : Shell) : Bool := s.number ≠ s.process

/-! ## Parameters -/

def known? (s : Shell) (name : String) : Option Variable := s.bound.lookup name

def value? (s : Shell) (name : String) : Option String := (s.known? name).bind Variable.value

def isFixed (s : Shell) (name : String) : Bool := (s.known? name).any Variable.fixed

def putVariable (s : Shell) (name : String) (v : Variable) : Shell :=
  { s with bound := (name, v) :: s.bound.filter (fun b => b.1 ≠ name) }

def dropVariable (s : Shell) (name : String) : Shell :=
  { s with bound := s.bound.filter (fun b => b.1 ≠ name) }

def setVariable (s : Shell) (name value : String) : Shell :=
  let old := (s.known? name).getD {}
  let s := if name = "OPTIND" then { s with optionPlace := none } else s
  s.putVariable name { old with value := some value, exported := old.exported || s.hasFlag 'a' }

def restore (s : Shell) (saved : String × Option Variable) : Shell :=
  match saved.2 with
  | some v => s.putVariable saved.1 v
  | none => s.dropVariable saved.1

def separators (s : Shell) : List Char := ((s.value? "IFS").getD " \t\n").toList

def joinedArgs (s : Shell) : String :=
  (match s.separators.head? with
    | some c => String.singleton c
    | none => "").intercalate s.args

def options : List (Char × String) :=
  [('e', "errexit"), ('f', "noglob"), ('I', "ignoreeof"), ('i', "interactive"), ('m', "monitor"),
    ('n', "noexec"), ('s', "stdin"),
   ('x', "xtrace"), ('v', "verbose"), ('V', "vi"), ('E', "emacs"), ('C', "noclobber"),
   ('a', "allexport"), ('b', "notify"),
   ('u', "nounset")]

def flagLetters (s : Shell) : String := String.ofList ((options.map Prod.fst).reverse.filter s.hasFlag)

def isDigits (name : String) : Bool := name.toList.all Char.isDigit

def parameter? (s : Shell) (name : String) : Option String :=
  match name with
  | "@" | "*" => if s.args.isEmpty then none else some s.joinedArgs
  | "#" => some (Nat.repr s.args.length)
  | "?" => some (Nat.repr s.status)
  | "$" => some (Nat.repr s.number)
  | "-" => some s.flagLetters
  | "!" => s.lastJob.map Nat.repr
  | name =>
    if isDigits name then
      match name.toNat? with
      | some 0 => some s.name
      | some (n + 1) => s.args[n]?
      | none => none
    else s.value? name

def isName (word : String) : Bool :=
  word.toList.head?.any Script.isNameStart && word.toList.all Script.isNameChar

/-! ## Fields -/

inductive Chunk
  | solid (gs : List Glyph)
  | loose (cs : List Char)
  | cut

def isBlankSeparator (c : Char) : Bool := c = ' ' ∨ c = '\t' ∨ c = '\n'

/-- Fields that are done, back to front, and the one that is being read. After a separator,
`skipping` holds until something else comes: blanks are skipped, and one separator of another kind
if it says so. -/
structure Fields where
  done : List (List Glyph) := []
  open? : Option (List Glyph) := none
  skipping : Option Bool := none

namespace Fields

def close (f : Fields) : Fields :=
  match f.open? with
  | some gs => { f with done := gs.reverse :: f.done, open? := none }
  | none => f

def add (f : Fields) (gs : List Glyph) : Fields :=
  { f with open? := some (gs.reverse ++ f.open?.getD []), skipping := none }

def divide (f : Fields) (c : Char) : Fields :=
  if isBlankSeparator c ∧ f.open?.isNone then { f with skipping := none }
  else { done := (f.open?.getD []).reverse :: f.done, skipping := some (isBlankSeparator c) }

def addLoose (separators : List Char) (f : Fields) (c : Char) : Fields :=
  if !separators.contains c then f.add [⟨c, false⟩]
  else
    match f.skipping with
    | some other =>
      if isBlankSeparator c then f
      else if other then { f with skipping := some false }
      else { f with skipping := none }.divide c
    | none => f.divide c

def addChunk (separators : List Char) (f : Fields) : Chunk → Fields
  | .solid gs => f.add gs
  | .loose cs => { cs.foldl (addLoose separators) f with skipping := none }
  | .cut => f.close

def ofChunks (separators : List Char) (chunks : List Chunk) : List (List Glyph) :=
  (chunks.foldl (addChunk separators) {}).close.done.reverse

end Fields

def chunk (quoted : Bool) (text : String) : Chunk :=
  if quoted then .solid (Glyph.ofText true text) else .loose text.toList

def chunkGlyphs : Chunk → List Glyph
  | .solid gs => gs
  | .loose cs => cs.map (⟨·, false⟩)
  | .cut => [⟨' ', true⟩]

def argChunks (quoted : Bool) : List String → List Chunk
  | [] => []
  | [a] => [chunk quoted a]
  | a :: rest => chunk quoted a :: .cut :: argChunks quoted rest

def printedText (bytes : ByteArray) : String :=
  let cs := (Octets.ofBytes bytes).toList.filter (· ≠ '\x00')
  String.ofList (cs.reverse.dropWhile (· = '\n')).reverse

/-! ## Streams -/

def descriptor? (s : Shell) (n : Nat) : Option Nat := s.descriptors.lookup n

def setDescriptor (s : Shell) (n id : Nat) : Shell :=
  { s with descriptors := (n, id) :: s.descriptors.filter (fun d => d.1 ≠ n) }

def closeDescriptor (s : Shell) (n : Nat) : Shell :=
  { s with descriptors := s.descriptors.filter (fun d => d.1 ≠ n) }

def emit? (s : Shell) (n : Nat) (bytes : ByteArray) : Option Shell := do
  let world ← s.world.write? s.clock s.process bytes (← s.descriptor? n)
  return { s with world }

def print (s : Shell) (bytes : ByteArray) : Shell :=
  if bytes.isEmpty then s else (s.emit? 1 bytes).getD { s with status := 1 }

def printText (s : Shell) (text : String) : Shell := s.print (Octets.toBytes text)

def complain (s : Shell) (bytes : ByteArray) : Shell := if bytes.isEmpty then s else (s.emit? 2 bytes).getD s

def input (s : Shell) : Option ByteArray := (s.descriptor? 0).bind s.world.rest?

def skipInput (s : Shell) (count : Nat) : Shell :=
  match s.descriptor? 0 with
  | some id => { s with world := s.world.skip id count, clock := max s.clock (s.world.readyAt id) }
  | none => s

def openStream (s : Shell) (n : Nat) (stream : Stream) : Shell :=
  let (id, world) := s.world.addStream stream
  { s with world }.setDescriptor n id

def target (s : Shell) : Option (List String) :=
  match (s.descriptor? 1).map s.world.stream with
  | some (.file names _ _ _ true) => some names
  | _ => none

def openFile (s : Shell) (n : Nat) (direction : Direction) (name : String) : Except String Shell :=
  let path := pathOf name
  let cannot (verb : String) (reason : String) : Except String Shell :=
    .error ("cannot " ++ verb ++ " " ++ name ++ ": " ++ reason)
  if name = "/dev/null" then .ok (s.openStream n .nothing)
  else
    match streamDevice? name with
    | some m =>
      match s.descriptor? m with
      | none => cannot "open" "No such file"
      | some id =>
        match s.world.stream id with
        | .file names _ _ _ _ =>
          if direction = .input then .ok (s.openStream n (.file names 0 true false false)) else
            .ok (s.setDescriptor n id)
        | _ => .ok (s.setDescriptor n id)
    | none =>
      if direction = .input then
        match s.files.resolve path with
        | .ok names => .ok (s.openStream n (.file names 0 true false false))
        | .error _ => cannot "open" "No such file"
      else
        let known := s.files.resolve path
        let old := (known.toOption.bind s.world.content).getD .empty
        if direction = .output ∧ s.hasFlag 'C' ∧ s.files.isFile path then cannot "create" "File exists"
        else
          match s.files.write path (if direction = .append ∨ direction = .both then old else .empty) with
          | .error e => cannot "create" (if e = .notFound then "Directory nonexistent" else e.reason)
          | .ok files =>
            match files.resolve path with
            | .error e => cannot "create" e.reason
            | .ok names =>
              .ok ((s.setFiles files).openStream n
                (.file names 0 (direction = .both) true (direction = .append)))

/-! ## Control -/

def complaint (s : Shell) (text : String) : ByteArray := Octets.toBytes (s.name ++ ": 1: " ++ text ++ "\n")

def fail (s : Shell) (status : Nat) (text : String) : Shell := { s.complain (s.complaint text) with status }

def abort (s : Shell) (text : String) : Shell := { s.fail 2 text with halt := some .failed }

def succeed (s : Shell) : Shell := { s with status := 0 }

def finish (s : Shell) (r : Outcome) : Shell :=
  let s := if r.taken = 0 then s else s.skipInput r.taken
  (({ s with status := r.status, clock := s.clock + r.millis }).print r.output).complain r.errors

def runUtility (s : Shell) (run : Context → List String → Outcome) (args : List String) : Shell :=
  s.finish (run
    { files := s.files
      input := s.input
      stream? := fun n => (s.descriptor? n).bind s.world.whole?
      target := s.target } args)

def split (s : Shell) : Shell :=
  let process := s.world.processes + 1
  { s with
    world := { s.world with processes := process }
    process
    traps := s.traps.filter (fun t => t.1 ≠ 0 ∧ t.2.isEmpty)
    outerTraps := if s.isInner then s.outerTraps else s.traps
    jobs := [] }

def rejoin (before after : Shell) : Shell :=
  { before with world := after.world, clock := max before.clock after.clock, status := after.status % 256 }

def afterBody (s : Shell) : Bool × Shell :=
  match s.halt with
  | none => (false, s)
  | some (.leave (n + 2)) => (true, { s with halt := some (.leave (n + 1)) })
  | some (.leave _) => (true, { s with halt := none })
  | some (.next (n + 2)) => (true, { s with halt := some (.next (n + 1)) })
  | some (.next _) => (false, { s with halt := none })
  | some _ => (true, s)

/-! ## Signals -/

def signals : List (String × Nat) :=
  [("EXIT", 0), ("HUP", 1), ("INT", 2), ("QUIT", 3), ("ILL", 4), ("TRAP", 5), ("ABRT", 6),
    ("BUS", 7), ("FPE", 8), ("KILL", 9),
   ("USR1", 10), ("SEGV", 11), ("USR2", 12), ("PIPE", 13), ("ALRM", 14), ("TERM", 15),
   ("STKFLT", 16), ("CHLD", 17), ("CONT", 18),
   ("STOP", 19), ("TSTP", 20), ("TTIN", 21), ("TTOU", 22), ("URG", 23), ("XCPU", 24), ("XFSZ", 25),
   ("VTALRM", 26), ("PROF", 27),
   ("WINCH", 28), ("POLL", 29), ("PWR", 30), ("SYS", 31)]

def harmless : List Nat := [0, 17, 18, 23, 28]

def strict : List Nat := [9, 19]

def signal? (word : String) : Option Nat :=
  match word.toNat? with
  | some n => if isDigits word ∧ n < 65 then some n else none
  | none => (signals.find? (fun s => s.1 = word.toUpper)).map Prod.snd

def receive (s : Shell) (n : Nat) : Shell :=
  match (if strict.contains n then none else (if s.isInner then s.outerTraps else s.traps).lookup n) with
  | some _ => { s with world := { s.world with signals := s.world.signals ++ [⟨s.clock, s.number, n⟩] } }
  | none => if harmless.contains n then s else { s with status := 128 + n, halt := some .killed }

def killJob (s : Shell) (n : Nat) (job : Job) : Shell :=
  if job.ends ≤ s.clock ∨ harmless.contains n then s
  else
    let ended : Job := { job with ends := s.clock, status := 128 + n }
    { s with
      jobs := s.jobs.map (fun j => if j.number = job.number then ended else j)
      world := s.world.silence job.number s.clock }

def job? (s : Shell) (word : String) : Option Job :=
  match word.toList with
  | '%' :: rest =>
    match (String.ofList rest).toNat? with
    | some (n + 1) => s.jobs[n]?
    | _ => s.jobs.getLast?
  | _ => word.toNat?.bind (fun n => s.jobs.find? (fun j => j.number = n))

def refuseJob (s : Shell) (name word : String) : Shell :=
  s.abort (name ++ (if word.startsWith "%" then ": No such job: " else ": Illegal number: ") ++ word)

def sendTo (n : Nat) (s : Shell) (word : String) : Shell :=
  if s.halt.isSome then s
  else if word = Nat.repr s.number then s.receive n
  else
    match s.job? word with
    | some job => s.killJob n job
    | none =>
      if isDigits ((word.dropPrefix "-").toString) then s.fail 1 "kill: No such process"
      else s.refuseJob "kill" word

def killCommand (s : Shell) (args : List String) : Shell :=
  let send (n : Nat) (targets : List String) : Shell :=
    if targets.isEmpty then s.fail 2 "kill: Usage: kill [-s sigspec | -signum | -sigspec] [pid | job]..."
    else targets.foldl (sendTo n) s.succeed
  match args with
  | "-l" :: [] => s.succeed.printText ("0\n" ++ String.join ((signals.drop 1).map (fun x => x.1 ++ "\n")))
  | "-l" :: n :: _ =>
    match n.toNat? with
    | some n =>
      match signals.find? (fun x => x.2 = n % 128) with
      | some (name, _) => s.succeed.printText (name ++ "\n")
      | none => s.fail 2 "kill: invalid signal number or exit status"
    | none => s.fail 2 ("kill: Illegal number: " ++ n)
  | "-s" :: name :: targets =>
    match signal? name with
    | some n => send n targets
    | none => s.fail 2 ("kill: invalid signal number or exit status: " ++ name)
  | "--" :: targets => send 15 targets
  | arg :: targets =>
    match arg.toList with
    | '-' :: rest =>
      match signal? (String.ofList rest) with
      | some n => send n (if targets.head? = some "--" then targets.tail else targets)
      | none => s.fail 2 ("kill: Illegal option -" ++ String.ofList (rest.take 1))
    | _ => send 15 (arg :: targets)
  | [] => send 15 []

def quoted (text : String) : String :=
  "'" ++ String.join (text.toList.map (fun c => if c = '\'' then "'\"'\"'" else String.singleton c)) ++ "'"

def signalName (n : Nat) : String := ((signals.find? (fun x => x.2 = n)).map Prod.fst).getD (Nat.repr n)

def setTraps (action : Option String) : Shell → List String → Shell
  | s, [] => s.succeed
  | s, word :: rest =>
    match signal? word with
    | none => { s.complain (Octets.toBytes ("trap: " ++ word ++ ": bad trap\n")) with status := 1 }
    | some n =>
      let others := s.traps.filter (fun t => t.1 ≠ n)
      setTraps action { s with traps := match action with
        | some text => (n, text) :: others
        | none => others } rest

def trapCommand (s : Shell) (args : List String) : Shell :=
  let args := if args.head? = some "--" then args.tail else args
  match args with
  | [] =>
    let sorted := s.traps.mergeSort (fun a b => a.1 ≤ b.1)
    s.succeed.printText (String.join (sorted.map fun t =>
      "trap -- " ++ quoted t.2 ++ " " ++ signalName t.1 ++ "\n"))
  | [word] => setTraps none s [word]
  | action :: words =>
    if isDigits action ∧ (signal? action).isSome then setTraps none s args
    else setTraps (if action = "-" then none else some action) s words

def awaitJob (s : Shell) (job : Job) : Shell :=
  { s with
    clock := max s.clock job.ends
    status := job.status
    jobs := s.jobs.filter (fun j => j.number ≠ job.number) }

def waitCommand (s : Shell) (args : List String) : Shell :=
  if args.isEmpty then { s.jobs.foldl awaitJob s with status := 0 }
  else args.foldl (fun s word =>
    match s.job? word with
    | some job => if s.halt.isSome then s else s.awaitJob job
    | none => if s.halt.isSome then s else if isDigits word then { s with status := 127 } else
        s.refuseJob "wait" word) s

/-! ## Reading lines -/

/-- A line at the front of some octets: what it holds, how many octets it takes, and whether it came
to an end. A backslash quotes the next octet, and joins lines. -/
def lineAt (raw : Bool) : List Char → List Glyph × Nat × Bool
  | [] => ([], 0, false)
  | '\\' :: c :: rest =>
    if raw then
      let (gs, n, ended) := lineAt raw (c :: rest)
      (⟨'\\', false⟩ :: gs, n + 1, ended)
    else
      let (gs, n, ended) := lineAt raw rest
      (if c = '\n' ∨ c = '\x00' then gs else ⟨c, true⟩ :: gs, n + 2, ended)
  | c :: rest =>
    if c = '\n' then ([], 1, true)
    else
      let (gs, n, ended) := lineAt raw rest
      (if c = '\x00' ∨ (c = '\\' ∧ !raw) then gs else ⟨c, false⟩ :: gs, n + 1, ended)

/-- The words of a line as far as they are divided: those that are done, back to front; the one that
is being read, back to front; how many more there may be; whether blanks are skipped; and to which
length the last word is cut in the end. -/
structure Words where
  done : List String := []
  open' : List Char := []
  room : Nat
  skipping : Bool := false
  cut : Option Nat := none

namespace Words

def addLast (w : Words) (separator : Bool) (c : Char) : Words :=
  if separator ∧ isBlankSeparator c then
    { w with cut := w.cut <|> some w.open'.length, open' := c :: w.open' }
  else { w with
    cut := if separator ∧ w.skipping then w.cut else none, skipping := false, open' := c :: w.open' }

def addSeparator (w : Words) (c : Char) : Words :=
  let blank := isBlankSeparator c
  if w.open'.isEmpty ∧ blank then { w with skipping := false }
  else if w.room = 1 then { w with
    room := 0, cut := some w.open'.length, open' := c :: w.open', skipping := blank }
  else { w with
    done := String.ofList w.open'.reverse :: w.done, open' := [], room := w.room - 1,
    skipping := blank }

def add (separators : List Char) (w : Words) (g : Glyph) : Words :=
  let separator := separators.contains g.char
  if g.quoted then { w with open' := g.char :: w.open', skipping := false }
  else if w.room = 0 then w.addLast separator g.char
  else if w.skipping then
    if separator then { w with skipping := isBlankSeparator g.char }
    else { w with open' := [g.char], skipping := false }
  else if separator then w.addSeparator g.char
  else { w with open' := g.char :: w.open', skipping := false }

def ofLine (separators : List Char) (room : Nat) (line : List Glyph) : List String :=
  let w := line.foldl (add separators) { room }
  let last := w.open'.reverse
  let last := match w.cut with
    | some n => last.take n
    | none => last
  (if last.isEmpty then w.done else String.ofList last :: w.done).reverse

end Words

def setWords (s : Shell) : List String → List String → Shell
  | [], _ => s
  | name :: names, words =>
    if s.isFixed name then s.fail 2 (name ++ ": is read only")
    else (s.setVariable name (words.headD "")).setWords names words.tail

def letters? (known taking : List Char) :
    (fuel : Nat) → List String → Option (List (Char × String) × List String)
  | 0, args => some ([], args)
  | _ + 1, [] => some ([], [])
  | fuel + 1, arg :: rest =>
    match arg.toList with
    | ['-', '-'] => some ([], rest)
    | '-' :: c :: more =>
      if taking.contains c then
        match more, rest with
        | [], value :: rest => (letters? known taking fuel rest).map
            (fun (ls, rest) => ((c, value) :: ls, rest))
        | [], [] => none
        | more, rest => (letters? known taking fuel rest).map
            (fun (ls, rest) => ((c, String.ofList more) :: ls, rest))
      else if known.contains c then
        let rest := if more.isEmpty then rest else String.ofList ('-' :: more) :: rest
        (letters? known taking fuel rest).map (fun (ls, rest) => ((c, "") :: ls, rest))
      else none
    | _ => some ([], arg :: rest)

def optionLetters? (known taking : List Char) (args : List String) :
    Option (List (Char × String) × List String) :=
  letters? known taking ((args.map String.length).foldr (· + ·) 0 + args.length + 1) args

def readCommand (s : Shell) (args : List String) : Shell :=
  match optionLetters? ['r'] ['p'] args with
  | none => s.fail 2 "read: Illegal option"
  | some (_, []) => s.fail 2 "read: arg count"
  | some (letters, names) =>
    match names.find? (fun name => !isName name) with
    | some name => s.fail 2 ("read: " ++ name ++ ": bad variable name")
    | none =>
      let octets := (Octets.ofBytes (s.input.getD .empty)).toList
      let (line, size, ended) := lineAt (letters.any (fun l => l.1 = 'r')) octets
      let s := { s.skipInput size with status := if ended then 0 else 1 }
      s.setWords names (Words.ofLine s.separators names.length line)

/-! ## Settings -/

def scriptLetter : Char := 'c'

def setFlags? (on : Bool) (s : Shell) (letters : List Char) : Option Shell :=
  letters.foldlM (fun s c =>
    if (options.lookup c).isNone ∧ c ≠ scriptLetter then none
    else
      let others := s.flags.filter (· ≠ c)
      some { s with flags := if on then c :: others else others }) s

def setNamedFlag? (on : Bool) (s : Shell) (name : String) : Option Shell :=
  if name = "nolog" ∨ name = "debug" then some s
  else (options.find? (fun o => o.2 = name)).bind (fun o => s.setFlags? on [o.1])

/-- The options at the front of some words, and the words that follow; `none` for those if there are
no words. Two dashes end the options, and are followed by words even if there are none. -/
def takeOptions : (fuel : Nat) → Shell → List String → Except String (Shell × Option (List String))
  | 0, s, args => .ok (s, some args)
  | _ + 1, s, [] => .ok (s, none)
  | fuel + 1, s, arg :: rest =>
    match arg.toList with
    | ['-', '-'] => .ok (s, some rest)
    | ['-'] => .ok (s, if rest.isEmpty then none else some rest)
    | mark :: letters =>
      if mark ≠ '-' ∧ mark ≠ '+' ∨ letters.isEmpty then .ok (s, some (arg :: rest))
      else if letters.contains 'o' then
        match s.setFlags? (mark = '-') (letters.filter (· ≠ 'o')), rest with
        | some s, name :: rest =>
          match s.setNamedFlag? (mark = '-') name with
          | some s => takeOptions fuel s rest
          | none => .error ("Illegal option " ++ String.singleton mark ++ "o " ++ name)
        | some s, [] => .ok (s, none)
        | none, _ => .error ("Illegal option " ++ arg)
      else
        match s.setFlags? (mark = '-') letters with
        | some s => takeOptions fuel s rest
        | none => .error ("Illegal option " ++ arg)
    | [] => .ok (s, some (arg :: rest))

def listVariables (s : Shell) (before : String) (wanted : Variable → Bool) : String :=
  let sorted := (s.bound.filter (fun b => wanted b.2)).mergeSort (fun a b => decide (a.1 ≤ b.1))
  String.join (sorted.map (fun b => before ++ b.1 ++ (match b.2.value with
    | some v => "=" ++ quoted v
    | none => "") ++ "\n"))

def setCommand (s : Shell) (args : List String) : Shell :=
  match args with
  | [] => s.succeed.printText (s.listVariables "" (fun v => v.value.isSome))
  | args =>
    match takeOptions (args.length + 1) s args with
    | .error text => s.abort ("set: " ++ text)
    | .ok (after, words) =>
      if after.hasFlag scriptLetter then s.abort "set: Illegal option -c"
      else
        match words with
        | some args => { after.succeed with args }
        | none => after.succeed

def settingOf? (word : String) : Option (String × String) :=
  match word.splitOn "=" with
  | name :: value :: more => some (name, "=".intercalate (value :: more))
  | _ => none

def markVariables (mark : Variable → Variable) : Shell → List String → Shell
  | s, [] => s.succeed
  | s, word :: rest =>
    let (name, value) := match settingOf? word with
      | some (name, value) => (name, some value)
      | none => (word, none)
    if !isName name then s.abort (name ++ ": bad variable name")
    else if value.isSome ∧ s.isFixed name then s.abort (name ++ ": is read only")
    else
      let s := match value with
        | some v => s.setVariable name v
        | none => s
      markVariables mark (s.putVariable name (mark ((s.known? name).getD {}))) rest

def markCommand (s : Shell) (name : String) (wanted : Variable → Bool) (mark : Variable → Variable)
    (args : List String) : Shell :=
  match args with
  | [] | ["-p"] => s.succeed.printText (s.listVariables (name ++ " ") wanted)
  | args => markVariables mark s (args.filter (fun a => a ≠ "-p" ∧ a ≠ "--"))

def localCommand (s : Shell) (args : List String) : Shell :=
  match s.locals with
  | none => s.abort "local: not in a function"
  | some _ => args.foldl (fun s word =>
    if s.halt.isSome then s
    else
      let (name, value) := match settingOf? word with
        | some (name, value) => (name, some value)
        | none => (word, none)
      let old := s.known? name
      if value.isSome ∧ s.isFixed name then s.abort (name ++ ": is read only")
      else
        let s := { s with
          locals := s.locals.map fun ls =>
            if ls.any (fun l => l.1 = name) then ls else (name, old) :: ls }
        match value with
        | some v => s.setVariable name v
        | none => s) s.succeed

def unsetCommand (s : Shell) (args : List String) : Shell :=
  match optionLetters? ['f', 'v'] [] args with
  | none => s.abort "unset: Illegal option"
  | some (letters, names) =>
    if letters.getLast?.any (fun l => l.1 = 'f') then
      { s.succeed with functions := s.functions.filter (fun f => !names.contains f.1) }
    else
      match names.find? (fun name => s.isFixed name || !isName name) with
      | some name =>
        s.abort ("unset: " ++ name ++
        (if isName name then ": is read only" else ": bad variable name"))
      | none => names.foldl dropVariable s.succeed

def aliasCommand (s : Shell) (args : List String) : Shell :=
  let shown (a : String × String) : String := a.1 ++ "=" ++ quoted a.2 ++ "\n"
  match args with
  | [] => s.succeed.printText (String.join ((s.aliases.mergeSort (fun a b => decide (a.1 ≤ b.1))).map shown))
  | args => args.foldl (fun s word =>
    match settingOf? word with
    | some (name, text) => { s with aliases := (name, text) :: s.aliases.filter (fun a => a.1 ≠ name) }
    | none =>
      match s.aliases.lookup word with
      | some text => s.printText (shown (word, text))
      | none => { s.complain (Octets.toBytes ("alias: " ++ word ++ " not found\n")) with
          status := 1 }) s.succeed

def unaliasCommand (s : Shell) (args : List String) : Shell :=
  if args.head? = some "-a" then { s.succeed with aliases := [] }
  else
    let missing := args.any (fun name => (s.aliases.lookup name).isNone)
    { s with aliases := s.aliases.filter (fun a => !args.contains a.1), status := if missing then 1 else 0 }

/-! ## Folders -/

def workingText (s : Shell) : String := Octets.ofText (Path.ofNames s.working).text

def changeFolder (s : Shell) (args : List String) : Shell :=
  let args := args.dropWhile (fun a => a = "-L" ∨ a = "-P" ∨ a = "--")
  let wanted := match args with
    | [] => (s.value? "HOME").getD ""
    | "-" :: _ => (s.value? "OLDPWD").getD s.workingText
    | name :: _ => name
  let path := pathOf (if wanted.isEmpty then "." else wanted)
  match s.files.resolve path with
  | .ok names =>
    if s.files.isFolder path then
      let old := s.workingText
      let s := ({ s.succeed with working := names }.setVariable "OLDPWD" old)
      let s := s.setVariable "PWD" s.workingText
      if args.head? = some "-" then s.printText (s.workingText ++ "\n") else s
    else s.fail 2 ("cd: can't cd to " ++ wanted)
  | .error _ => s.fail 2 ("cd: can't cd to " ++ wanted)

/-! ## Options of scripts -/

structure OptionSearch where
  letters : List Char
  next : Nat

def nextOption (words : List String) (index : Nat) (place : Option Nat) : Except Nat OptionSearch :=
  let before := (words[index - 2]?.getD "").toList
  let letters := if index ≤ 1 then [] else
    match place with
    | some n => before.drop n
    | none => []
  if !letters.isEmpty then .ok ⟨letters, index⟩
  else
    match (words[index - 1]?.map String.toList) with
    | some ['-', '-'] => .error (index + 1)
    | some ('-' :: c :: more) => .ok ⟨c :: more, index + 1⟩
    | _ => .error index

def optionKind? : List Char → Char → Option Bool
  | [], _ => none
  | k :: rest, c => if k = c ∧ k ≠ ':' then some (rest.head? = some ':') else optionKind? rest c

def optionsCommand (s : Shell) (args : List String) : Shell :=
  match args with
  | known :: name :: words =>
    let words := if words.isEmpty then s.args else words
    let index := max 1 (((s.value? "OPTIND").bind String.toNat?).getD 1)
    let quiet := known.startsWith ":"
    let result (s : Shell) (status : Nat) (letter : Char) (value : Option String) (next : Nat)
        (place : Option Nat) : Shell :=
      let s := match value with
        | some v => s.setVariable "OPTARG" v
        | none => s.dropVariable "OPTARG"
      { ((s.setVariable "OPTIND" (Nat.repr next)).setVariable name (String.singleton letter)) with
        status, optionPlace := place }
    match nextOption words index s.optionPlace with
    | .error next =>
      { ((s.setVariable "OPTIND" (Nat.repr next)).setVariable name "?") with
        status := 1, optionPlace := none }
    | .ok ⟨[], next⟩ => result s 1 '?' none next none
    | .ok ⟨c :: letters, next⟩ =>
      let place := some (((words[next - 2]?.getD "").length) - letters.length)
      match optionKind? known.toList c with
      | none =>
        if quiet then result s 0 '?' (some (String.singleton c)) next place
        else result (s.complain (Octets.toBytes ("Illegal option -" ++ String.singleton c ++ "\n")))
          0 '?' none next place
      | some false => result s 0 c (some "") next place
      | some true =>
        if !letters.isEmpty then result s 0 c (some (String.ofList letters)) next none
        else
          match words[next - 1]? with
          | some value => result s 0 c (some value) (next + 1) none
          | none =>
            if quiet then result s 0 ':' (some (String.singleton c)) next none
            else
              result (s.complain (Octets.toBytes
              ("No arg for -" ++ String.singleton c ++ " option\n"))) 0 '?' none next none
  | _ => s.fail 2 "getopts: Usage: getopts optstring var [arg]"

/-! ## Commands by their names -/

/-- Commands of the shell that belong to its language: an error in one ends the script, and settings
before one stay. -/
def specialNames : List String :=
  [":", ".", "break", "continue", "eval", "exec", "exit", "export", "local", "readonly", "return",
    "set", "shift", "times", "trap",
   "unset"]

def plainNames : List String :=
  ["[", "alias", "bg", "cd", "chdir", "command", "echo", "false", "fg", "getopts", "hash", "jobs",
    "kill", "printf", "pwd", "read", "test",
   "true", "type", "ulimit", "umask", "unalias", "wait"]

def programNames : List String :=
  ["awk", "basename", "bash", "cat", "chmod", "cp", "cut", "dash", "date", "dirname", "env", "expr",
    "find", "fold", "grep", "head", "id", "ln",
   "ls", "mkdir", "mktemp", "mv", "nl", "nohup", "od", "paste", "rm", "rmdir", "sed", "seq", "sh",
   "sleep", "sort", "tac", "tail", "tee",
   "touch", "tr", "uname", "uniq", "wc", "xargs"]

def isProgram (name : String) : Bool :=
  programNames.contains name || ["[", "echo", "false", "kill", "printf", "pwd", "test", "true"].contains name

def isShellName (name : String) : Bool := ["sh", "dash", "bash"].contains name

def findsPrograms (s : Shell) : Bool :=
  ((s.value? "PATH").getD "").splitOn ":" |>.any (fun place => place = "/bin" ∨ place = "/usr/bin")

inductive Meaning
  | special
  | function (body : Command)
  | plain
  | program (name : String)
  | locked
  | nothing

def meaning (s : Shell) (functions : Bool) (name : String) : Meaning :=
  if specialNames.contains name then .special
  else
    match (if functions then s.functions.lookup name else none) with
    | some body => .function body
    | none =>
      if plainNames.contains name then .plain
      else if name.contains '/' then
        if bareName name ≠ name ∧ isProgram (bareName name) then .program (bareName name)
        else if (s.files.entry? (pathOf name)).isSome then .locked
        else .nothing
      else if isProgram name ∧ s.findsPrograms then .program name
      else .nothing

def isKeyword (name : String) : Bool := Script.reservedWords.contains name

def describeName (s : Shell) (inWords : Bool) (name : String) : Option String :=
  let told (short long : String) : Option String := some (if inWords then name ++ long else short)
  if isKeyword name then told name " is a shell keyword"
  else
    match s.aliases.lookup name with
    | some text => told ("alias " ++ name ++ "=" ++ quoted text) (" is an alias for " ++ text)
    | none =>
      match s.meaning true name with
      | .special => told name " is a special shell builtin"
      | .function _ => told name " is a shell function"
      | .plain => told name " is a shell builtin"
      | .program base =>
        let place := if name.contains '/' then name else "/usr/bin/" ++ base
        told place (" is " ++ place)
      | .locked | .nothing => none

def typeCommand (s : Shell) (args : List String) : Shell :=
  args.foldl (fun s name =>
    match s.describeName true name with
    | some text => s.printText (text ++ "\n")
    | none => { s.printText (name ++ ": not found\n") with status := 127 }) s.succeed

def hashCommand (s : Shell) (args : List String) : Shell :=
  args.foldl (fun s name =>
    if name.startsWith "-" ∨ (s.describeName false name).isSome then s
    else s.fail 1 ("hash: " ++ name ++ ": not found")) s.succeed

def count? (args : List String) (default : Nat) : Option Nat :=
  match args with
  | [] => some default
  | word :: _ => if !word.isEmpty ∧ isDigits word then word.toNat? else none

def builtin? (s : Shell) (name : String) (args : List String) : Option Shell :=
  let numbered (default : Nat) (run : Nat → Shell) : Option Shell :=
    match count? args default with
    | some n => some (run n)
    | none => some (s.abort (name ++ ": Illegal number: " ++ args.headD ""))
  let leaving (halt : Nat → Halt) : Option Shell :=
    numbered 1 fun n =>
      if n = 0 then s.abort (name ++ ": Illegal number: 0")
      else if s.loops = 0 then s.succeed
      else { s.succeed with halt := some (halt (min s.loops n)) }
  match name with
  | ":" | "true" => some s.succeed
  | "hash" => some (s.hashCommand args)
  | "jobs" => some (if args.isEmpty then s.succeed else s.refuseJob name (args.headD ""))
  | "bg" | "fg" => some (s.fail 2 (name ++ ": No current job"))
  | "false" => some { s with status := 1 }
  | "umask" => some (if args.isEmpty then s.succeed.printText "0022\n" else s.succeed)
  | "ulimit" => some (if args.isEmpty then s.succeed.printText "unlimited\n" else s.succeed)
  | "times" => some (s.succeed.printText "0m0.000000s 0m0.000000s\n0m0.000000s 0m0.000000s\n")
  | "trap" => some (s.trapCommand args)
  | "exit" => numbered s.status (fun n => { s with status := n % 256, halt := some .exit })
  | "return" => numbered s.status (fun n => { s with status := n, halt := some .returning })
  | "break" => leaving .leave
  | "continue" => leaving .next
  | "kill" => some (s.killCommand args)
  | "wait" => some (s.waitCommand args)
  | "set" => some (s.setCommand args)
  | "shift" => numbered 1 fun n =>
    if s.args.length < n then s.abort "shift: can't shift that many" else
      { s.succeed with args := s.args.drop n }
  | "export" => some (s.markCommand name Variable.exported (fun v => { v with exported := true }) args)
  | "readonly" => some (s.markCommand name Variable.fixed (fun v => { v with fixed := true }) args)
  | "local" => some (s.localCommand args)
  | "unset" => some (s.unsetCommand args)
  | "alias" => some (s.aliasCommand args)
  | "unalias" => some (s.unaliasCommand args)
  | "cd" | "chdir" => some (s.changeFolder args)
  | "pwd" => some (s.succeed.printText (s.workingText ++ "\n"))
  | "read" => some (s.readCommand args)
  | "getopts" => some (s.optionsCommand args)
  | "type" => some (s.typeCommand args)
  | "echo" => some (s.succeed.printText (echoed args))
  | "printf" => some (s.finish (printf args))
  | "test" => some { s with status := Condition.status ⟨s.files⟩ args }
  | "[" =>
    if args.getLast? = some "]" then some { s with status := Condition.status ⟨s.files⟩ args.dropLast }
    else some (s.fail 2 "[: missing ]")
  | _ => none

/-! ## Starting -/

def environment (s : Shell) : List (String × String) :=
  s.bound.filterMap (fun b => if b.2.exported then b.2.value.map (fun v => (b.1, v)) else none)

def ownVariables (working : String) : List (String × String) :=
  [("IFS", " \t\n"), ("OPTIND", "1"), ("PS1", "$ "), ("PS2", "> "), ("PS4", "+ "), ("PWD", working)]

def nested (s : Shell) (settings : List (String × String)) : Shell :=
  let process := s.world.processes + 1
  let fresh : Shell := {
    world := { s.world with processes := process }
    working := s.working
    clock := s.clock
    descriptors := s.descriptors
    traps := s.traps.filter (fun t => t.1 ≠ 0 ∧ t.2.isEmpty)
    number := process
    process }
  let known := (s.environment ++ settings).foldl
    (fun s v => s.putVariable v.1 { value := some v.2, exported := true }) fresh
  (ownVariables s.workingText).foldl (fun s v => s.setVariable v.1 v.2) known

def programPath : String := "/usr/local/sbin:/usr/local/bin:/usr/sbin:/usr/bin:/sbin:/bin"

def firstProcess : Nat := 1000

def initial (files : FileTree) : Shell :=
  let s : Shell :=
    { world := { files, processes := firstProcess }, working := files.working,
      process := firstProcess, number := firstProcess }
  [("HOME", "/root"), ("PATH", programPath)].foldl
    (fun s v => s.putVariable v.1 { value := some v.2, exported := true }) s

/-- The script that a shell is started with: its text, its name, its arguments, and the shell with
its options set. -/
def started (fresh : Shell) (args : List String) : Except String (String × Shell) :=
  match takeOptions (args.length + 1) fresh args with
  | .error text => .error text
  | .ok (s, words) =>
    let given := s.hasFlag scriptLetter
    let s := { s with flags := s.flags.filter (· ≠ scriptLetter) }
    let fromInput (args : List String) : String × Shell :=
      let content := s.input.getD .empty
      (Octets.ofBytes content, { s.skipInput content.size with args })
    match given, words.getD [] with
    | true, [] => .error "-c requires an argument"
    | true, text :: rest => .ok (text, { s with name := rest.headD s.name, args := rest.tail })
    | false, [] => .ok (fromInput [])
    | false, name :: rest =>
      if s.hasFlag 's' then .ok (fromInput (name :: rest))
      else
        match s.files.read (pathOf name) with
        | .ok content => .ok (Octets.ofBytes content, { s with name, args := rest })
        | .error _ => .error ("cannot open " ++ name ++ ": No such file")

end Shell

end RubyInfer.Program
