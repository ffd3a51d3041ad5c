import RubyInfer.Dumper
import RubyInfer.Program.Shell

/-!
Running scripts. Every command of a script changes the shell that runs it; a part that runs apart
changes a shell of its own, of which only the files, the streams, the time and the status are kept.
-/

namespace RubyInfer.Program

open Shell

namespace Running

def inLoop (run : Running Unit) : Running Unit := do
  modify fun s => { s with loops := s.loops + 1 }
  run
  modify fun s => { s with loops := s.loops - 1 }

def assign (name value : String) : Running Unit :=
  modify fun s => if s.isFixed name then s.abort (name ++ ": is read only") else s.setVariable name value

def halted : Running Bool := return (← get).halt.isSome

def isSetting : (front : String) → List Part → Bool
  | _, [] => false
  | front, .text s false :: rest => if s = "=" then isName front else isSetting (front ++ s) rest
  | _, _ => false

def takesSettings (name : String) : Bool := ["export", "readonly", "local", "alias"].contains name

def streamsOf (redirects : List Redirect) : List Nat :=
  redirects.map fun
    | .file n _ _ => n
    | .same n _ => n
    | .given n _ => n

def restoreStreams (before : Shell) (numbers : List Nat) : Running Unit :=
  modify fun s => numbers.foldl (fun s n =>
    match before.descriptor? n with
    | some id => s.setDescriptor n id
    | none => s.closeDescriptor n) s

/-- Runs a part of a script apart from the shell, which then goes on from what is left. One that
kills the shell takes it along. -/
def goOn (before after : Shell) : Shell :=
  { rejoin before after with halt := if after.halt = some .killed then some .killed else before.halt }

def maxDepth : Nat := 1000

def isWatched : Command → Bool
  | .simple .. => true
  | .apart .. => true
  | _ => false

def required (name : String) : Running String := do
  let s ← get
  match s.parameter? name with
  | some value => return value
  | none =>
    if s.hasFlag 'u' ∧ name ≠ "*" ∧ name ≠ "@" then set (s.abort (name ++ ": parameter not set"))
    return ""

/-! All calls go down in `fuel`; a script that uses it up does not end. -/

mutual
def expand : (fuel : Nat) → List Part → Running (List Chunk)
  | 0, _ => fun _ => none
  | fuel + 1, parts => do
    let chunks ← parts.mapM fun
      | .text s quoted => pure [Chunk.solid (Glyph.ofText quoted s)]
      | .loose s => pure [Chunk.loose s.toList]
      | .home user => do
        let s ← get
        let home := if user.isEmpty then s.value? "HOME" else if user = "root" then some "/root" else none
        return [.solid (Glyph.ofText true (home.getD ("~" ++ user)))]
      | .bad => do
        modify (·.abort "Bad substitution")
        return []
      | .parameter name quoted => do
        let s ← get
        if name = "@" ∨ (name = "*" ∧ !quoted) then return argChunks quoted s.args
        return [chunk quoted (← required name)]
      | .size name quoted => return [chunk quoted (Nat.repr (← required name).length)]
      | .guarded name sign emptyToo word quoted => guarded fuel name sign emptyToo word quoted
      | .trimmed name front longest pattern quoted => do
        let value ← required name
        let atoms := Pattern.ofGlyphs ((← expand fuel pattern).flatMap chunkGlyphs)
        return [chunk quoted (String.ofList (Pattern.trim front longest atoms value.toList))]
      | .printed body quoted => do
        let before ← get
        let child := before.split
        let (id, world) := child.world.addStream (.pipe .empty 0)
        set ({ child with world }.setDescriptor 1 id)
        runSteps fuel false body
        farewell fuel
        let after ← get
        let ends := (after.jobs.map Job.ends).foldl max after.clock
        set { goOn before { after with
          clock := ends } with status := before.status, substituted := after.status }
        return [chunk quoted (printedText ((after.world.rest? id).getD .empty))]
      | .sum expression quoted => do
        let text ← text fuel expression
        let s ← get
        match (Sum.read? text).bind (fun sum => sum.value? s.value? []) with
        | some (n, made) =>
          made.reverse.forM (fun (name, n) => assign name (toString n.toInt))
          return [chunk quoted (toString n.toInt)]
        | none =>
          set (s.abort ("arithmetic expression: \"" ++ text ++ "\""))
          return []
    return chunks.flatten

def guarded : (fuel : Nat) → String → Char → Bool → List Part → Bool → Running (List Chunk)
  | 0, _, _, _, _, _ => fun _ => none
  | fuel + 1, name, sign, emptyToo, word, quoted => do
    let s ← get
    let value := (s.parameter? name).filter (fun v => !(emptyToo && v.isEmpty))
    match value, sign with
    | some _, '+' => expand fuel word
    | none, '+' => return if quoted then [chunk true ""] else []
    | some v, _ =>
      return if name = "@" then argChunks quoted s.args else [chunk quoted v]
    | none, '-' => expand fuel word
    | none, '=' =>
      let v ← text fuel word
      if isName name then assign name v else modify (·.abort (name ++ ": bad variable name"))
      return [chunk quoted v]
    | none, _ =>
      let complaint ← text fuel word
      let complaint :=
        if complaint.isEmpty then if emptyToo then "parameter not set or null" else
          "parameter not set" else complaint
      modify (·.abort (name ++ ": " ++ complaint))
      return []

def text : (fuel : Nat) → List Part → Running String
  | 0, _ => fun _ => none
  | fuel + 1, parts => return Glyph.text ((← expand fuel parts).flatMap chunkGlyphs)

def fields : (fuel : Nat) → List (List Part) → Running (List String)
  | 0, _ => fun _ => none
  | fuel + 1, words => do
    let found ← words.mapM fun word => do
      let chunks ← expand fuel word
      let s ← get
      let words := Fields.ofChunks s.separators chunks
      return if s.hasFlag 'f' then words.map Glyph.text else words.flatMap (Pattern.paths s.files)
    return found.flatten

def commandFields : (fuel : Nat) → List (List Part) → Running (List String)
  | 0, _ => fun _ => none
  | _ + 1, [] => return []
  | fuel + 1, word :: rest => do
    match ← fields fuel [word] with
    | [] => commandFields fuel rest
    | name :: more =>
      if name = "command" ∨ name = "-p" then return name :: more ++ (← commandFields fuel rest)
      else if takesSettings name then
        let args ← rest.mapM fun word =>
          if isSetting "" word then return [← text fuel word] else fields fuel [word]
        return name :: more ++ args.flatten
      else return name :: more ++ (← fields fuel rest)

def openAll : (fuel : Nat) → List Redirect → Running Bool
  | 0, _ => fun _ => none
  | _ + 1, [] => return true
  | fuel + 1, .given stream content :: rest => do
    let t ← text fuel content
    modify (·.openStream stream (.pipe (Octets.toBytes t) 0))
    openAll fuel rest
  | fuel + 1, .same stream target :: rest => do
    let t ← text fuel target
    let s ← get
    if t = "-" then
      set (s.closeDescriptor stream)
      openAll fuel rest
    else
      match (if isDigits t then t.toNat? else none).bind s.descriptor? with
      | some id =>
        set (s.setDescriptor stream id)
        openAll fuel rest
      | none =>
        set (s.fail 2 (t ++ ": Bad file descriptor"))
        return false
  | fuel + 1, .file stream direction target :: rest => do
    let name ← text fuel target
    let s ← get
    if s.halt.isSome then return false
    match s.openFile stream direction name with
    | .ok s =>
      set s
      openAll fuel rest
    | .error complaint =>
      set (s.fail 2 complaint)
      return false

/-- Runs with the streams redirected. A special command that cannot have its streams ends the
script, as does any in a strict one. -/
def redirected : (fuel : Nat) → (special tested : Bool) → List Redirect → Running Unit → Running Unit
  | 0, _, _, _, _ => fun _ => none
  | _ + 1, _, _, [], body => body
  | fuel + 1, special, tested, redirects, body => do
    let before ← get
    if ← openAll fuel redirects then body
    else if special then modify fun s => { s with halt := some .failed }
    else if before.hasFlag 'e' ∧ !tested then modify fun s => { s with halt := s.halt <|> some .exit }
    restoreStreams before (streamsOf redirects)

def runScript : (fuel : Nat) → (tested : Bool) → List Char → Running Unit
  | 0, _, _ => fun _ => none
  | fuel + 1, tested, cs => do
    let s ← get
    match Script.next s.aliases cs with
    | .done => pure ()
    | .bad => set (s.abort "Syntax error")
    | .steps found rest =>
      runSteps fuel tested found
      if ← halted then pure () else runScript fuel tested rest

def farewell : (fuel : Nat) → Running Unit
  | 0 => fun _ => none
  | fuel + 1 => do
    let s ← get
    match (if s.halt = some .killed then none else s.traps.lookup 0) with
    | some script =>
      set { s with halt := none, traps := s.traps.filter (fun t => t.1 ≠ 0) }
      runScript fuel false script.toList
      modify fun t => if t.halt = some .exit ∨ t.halt = some .failed ∨ t.halt = some .killed then
        t else { t with status := s.status, halt := s.halt }
    | none => pure ()

def deliver : (fuel : Nat) → Running Unit
  | 0 => fun _ => none
  | fuel + 1 => do
    let s ← get
    if s.isInner ∨ s.halt.isSome then pure ()
    else
      match s.world.signals.find? (fun x => x.process = s.number ∧ x.time ≤ s.clock) with
      | none => pure ()
      | some signal =>
        set { s with world := { s.world with signals := s.world.signals.erase signal } }
        match s.traps.lookup signal.number with
        | some script =>
          runScript fuel false script.toList
          modify fun t => if t.halt.isSome then t else { t with status := s.status }
        | none => pure ()
        deliver fuel

def runNested : (fuel : Nat) → List (String × String) → List String → Running Unit
  | 0, _, _ => fun _ => none
  | fuel + 1, settings, args => do
    let s ← get
    match started (s.nested settings) args with
    | .error complaint =>
      set { s.complain (Octets.toBytes ("sh: 0: " ++ complaint ++ "\n")) with status := 2 }
    | .ok (script, fresh) =>
      set fresh
      runScript fuel false script.toList
      farewell fuel
      set (rejoin s (← get))

def runProgram : (fuel : Nat) → List (String × String) → String → List String → Running Unit
  | 0, _, _, _ => fun _ => none
  | fuel + 1, settings, name, args => do
    let s ← get
    if isShellName name then runNested fuel settings args
    else if name = "env" ∨ name = "nohup" then
      let more := (args.takeWhile (·.contains '=')).filterMap settingOf?
      match args.dropWhile (·.contains '=') with
      | [] =>
        set (s.succeed.printText (String.join
        ((s.nested (settings ++ more)).environment.map (fun v => v.1 ++ "=" ++ v.2 ++ "\n"))))
      | name :: args =>
        match s.meaning false name with
        | .program base => runProgram fuel (settings ++ more) base args
        | .locked => set (s.fail 126 ("env: '" ++ name ++ "': Permission denied"))
        | _ =>
          if isProgram name then runProgram fuel (settings ++ more) name args
          else set (s.fail 127 ("env: '" ++ name ++ "': No such file or directory"))
    else
      match utility? name with
      | some run => set (s.runUtility run args)
      | none => set ((s.builtin? name args).getD (s.fail 127 (name ++ ": not found")))

def runSpecial : (fuel : Nat) → (tested : Bool) → String → List String → Running Unit
  | 0, _, _, _ => fun _ => none
  | fuel + 1, tested, name, args => do
    let s ← get
    match name, args with
    | "eval", args =>
      set s.succeed
      runScript fuel tested (" ".intercalate args).toList
    | ".", [] => set s.succeed
    | ".", file :: _ =>
      match (if file.contains '/' then s.files.read (pathOf file) else .error .notFound) with
      | .error _ => set (s.abort (".: cannot open " ++ file ++ ": No such file"))
      | .ok content =>
        set s.succeed
        runScript fuel false (Octets.ofBytes content).toList
        modify fun t => { t with halt := if t.halt = some .returning then none else t.halt }
    | "exec", [] => set s.succeed
    | "exec", name :: args =>
      match s.meaning false name with
      | .program base =>
        runProgram fuel [] base args
        modify fun t => { t with halt := some .exit, traps := [] }
      | meaning =>
        if isProgram name ∧ s.findsPrograms then
          runProgram fuel [] name args
          modify fun t => { t with halt := some .exit, traps := [] }
        else
          let status := match meaning with
            | .locked => 126
            | _ => 127
          set { s.fail status ("exec: " ++ name ++ ": not found") with halt := some .exit }
    | name, args => set ((s.builtin? name args).getD s)

def runPlain : (fuel : Nat) → (tested : Bool) → String → List String → Running Unit
  | 0, _, _, _ => fun _ => none
  | fuel + 1, tested, name, args => do
    let s ← get
    if name = "command" then
      match optionLetters? ['p', 'v', 'V'] [] args with
      | none => set (s.fail 2 "command: Illegal option")
      | some (letters, words) =>
        match letters.find? (fun l => l.1 ≠ 'p'), words with
        | _, [] => set s.succeed
        | some (letter, _), word :: _ =>
          match s.describeName (letter = 'V') word with
          | some text => set (s.succeed.printText (text ++ "\n"))
          | none => set { (if letter = 'V' then s.printText (word ++ ": not found\n") else s) with
              status := 127 }
        | none, words => call fuel tested false [] words
    else set ((s.builtin? name args).getD s)

def call : (fuel : Nat) → (tested functions : Bool) → List (String × String) → List String → Running Unit
  | 0, _, _, _, _ => fun _ => none
  | _ + 1, _, _, _, [] => pure ()
  | fuel + 1, tested, functions, settings, name :: args => do
    let s ← get
    let saved := settings.map (fun v => (v.1, s.known? v.1))
    let setAll : Running Unit := settings.forM (fun v => assign v.1 v.2)
    match s.meaning functions name with
    | .special =>
      setAll
      if ← halted then pure () else runSpecial fuel tested name args
    | .function body =>
      setAll
      if ← halted then pure ()
      else if maxDepth ≤ s.depth then modify (·.abort "Maximum function recursion depth (1000) reached")
      else
        modify fun t => { t with args, locals := some saved, loops := 0, depth := s.depth + 1 }
        runCommand fuel tested body
        modify fun t =>
          let t := (t.locals.getD []).foldl restore t
          { t with
            args := s.args
            depth := s.depth
            locals := s.locals
            loops := s.loops
            halt := if t.halt = some .returning then none else t.halt }
    | .plain =>
      setAll
      if ← halted then pure ()
      else
        modify fun t => { t with locals := some saved }
        runPlain fuel tested name args
        modify fun t =>
          { (t.locals.getD []).foldl restore t with
            locals := s.locals
            halt := if t.halt = some .failed then none else t.halt }
    | meaning =>
      match settings.find? (fun v => s.isFixed v.1), meaning with
      | some (fixed, _), _ => set (s.abort (fixed ++ ": is read only"))
      | none, .program base => runProgram fuel settings base args
      | none, .locked => set (s.fail 126 (name ++ ": Permission denied"))
      | none, _ => set (s.fail 127 (name ++ ": not found"))

def settingValues : (fuel : Nat) → List (String × List Part) → Running (List (String × String))
  | 0, _ => fun _ => none
  | _ + 1, [] => return []
  | fuel + 1, (name, parts) :: rest => do
    let value ← text fuel parts
    let before := (← get).known? name
    modify (·.setVariable name value)
    let more ← settingValues fuel rest
    modify (·.restore (name, before))
    return (name, value) :: more

def runSimple : (fuel : Nat) → (tested : Bool) → List (String × List Part) → List (List Part) →
    List Redirect → Running Unit
  | 0, _, _, _, _ => fun _ => none
  | fuel + 1, tested, settings, words, redirects => do
    modify fun s => { s with substituted := 0 }
    let words ← commandFields fuel words
    if ← halted then pure ()
    else
      match words with
      | [] => redirected fuel false tested redirects do
        settings.forM fun (name, value) => do
          let value ← text fuel value
          if ← halted then pure () else assign name value
        if ← halted then pure () else modify fun s => { s with status := s.substituted }
      | ["exec"] =>
        if ← openAll fuel redirects then
          (← settingValues fuel settings).forM (fun v => assign v.1 v.2)
          if ← halted then pure () else modify succeed
        else modify fun s => { s with halt := some .failed }
      | name :: args => redirected fuel (specialNames.contains name) tested redirects do
        let settings ← settingValues fuel settings
        if ← halted then pure () else call fuel tested true settings (name :: args)

def runBranches : (fuel : Nat) → Bool → List (List Step × List Step) → List Step → Running Unit
  | 0, _, _, _ => fun _ => none
  | _ + 1, _, [], [] => modify succeed
  | fuel + 1, tested, [], otherwise => runSteps fuel tested otherwise
  | fuel + 1, tested, (test, body) :: rest, otherwise => do
    runSteps fuel true test
    let s ← get
    if s.halt.isSome then pure ()
    else if s.status = 0 then runSteps fuel tested body
    else runBranches fuel tested rest otherwise

def runLoop : (fuel : Nat) → Bool → (wanted : Bool) → (last : Nat) → List Step → List Step → Running Unit
  | 0, _, _, _, _, _ => fun _ => none
  | fuel + 1, tested, wanted, last, test, body => do
    runSteps fuel true test
    let (ended, s) := (← get).afterBody
    set s
    if ended then pure ()
    else if (s.status = 0) = wanted then
      runSteps fuel tested body
      let (ended, s) := (← get).afterBody
      set s
      if ended then pure () else runLoop fuel tested wanted s.status test body
    else set { s with status := last }

def runEach : (fuel : Nat) → Bool → String → List String → List Step → Running Unit
  | 0, _, _, _, _ => fun _ => none
  | _ + 1, _, _, [], _ => pure ()
  | fuel + 1, tested, name, value :: rest, body => do
    assign name value
    if ← halted then pure ()
    else
      runSteps fuel tested body
      let (ended, s) := (← get).afterBody
      set s
      if ended then pure () else runEach fuel tested name rest body

def runArms : (fuel : Nat) → Bool → String → List (List (List Part) × List Step) → Running Unit
  | 0, _, _, _ => fun _ => none
  | _ + 1, _, _, [] => modify succeed
  | fuel + 1, tested, subject, (patterns, body) :: rest => do
    if ← fitsAny fuel subject patterns then
      if body.isEmpty then modify succeed else runSteps fuel tested body
    else runArms fuel tested subject rest

def fitsAny : (fuel : Nat) → String → List (List Part) → Running Bool
  | 0, _, _ => fun _ => none
  | _ + 1, _, [] => return false
  | fuel + 1, subject, pattern :: rest => do
    let atoms := Pattern.ofGlyphs ((← expand fuel pattern).flatMap chunkGlyphs)
    if Pattern.fits atoms subject.toList then return true else fitsAny fuel subject rest

def runCommand : (fuel : Nat) → (tested : Bool) → Command → Running Unit
  | 0, _, _ => fun _ => none
  | fuel + 1, tested, command =>
    match command with
    | .simple settings words redirects => runSimple fuel tested settings words redirects
    | .group body redirects => redirected fuel false tested redirects (runSteps fuel tested body)
    | .apart body redirects => redirected fuel false tested redirects do
      let before ← get
      set before.split
      runSteps fuel tested body
      farewell fuel
      set (goOn before (← get))
    | .choice branches otherwise redirects =>
      redirected fuel false tested redirects (runBranches fuel tested branches otherwise)
    | .loop wanted test body redirects =>
      redirected fuel false tested redirects (inLoop (runLoop fuel tested wanted 0 test body))
    | .each name words body redirects => redirected fuel false tested redirects do
      let values ← match words with
        | some words => fields fuel words
        | none => pure (← get).args
      if ← halted then pure ()
      else if values.isEmpty then modify succeed
      else inLoop (runEach fuel tested name values body)
    | .arms subject arms redirects => redirected fuel false tested redirects do
      let subject ← text fuel subject
      if ← halted then pure () else runArms fuel tested subject arms
    | .define name body => modify fun s =>
      { s.succeed with functions := (name, body) :: s.functions.filter (fun f => f.1 ≠ name) }

/-- Runs the commands of a pipeline side by side, each apart from the shell as it was at the start;
each reads what the one before it prints. -/
def runPiped : (fuel : Nat) → (tested : Bool) → (start : Shell) → (source : Option Nat) →
    List Command → Running Unit
  | 0, _, _, _, _ => fun _ => none
  | _ + 1, _, _, _, [] => pure ()
  | fuel + 1, tested, start, source, command :: rest => do
    let before ← get
    let child := { before.split with clock := start.clock, status := start.status }
    let child := match source with
      | some id => child.setDescriptor 0 id
      | none => child
    if rest.isEmpty then
      set child
      runCommand fuel tested command
      farewell fuel
      set (goOn before (← get))
    else
      let (id, world) := child.world.addStream (.pipe .empty start.clock)
      set ({ child with world }.setDescriptor 1 id)
      runCommand fuel tested command
      farewell fuel
      let after ← get
      set (goOn before { after with world := after.world.closeAt id after.clock })
      runPiped fuel tested start (some id) rest

/-- Runs one step. In the background it gets no input, its time does not count, and how it ends is
only known to those who wait. -/
def runStep : (fuel : Nat) → (tested : Bool) → Step → Running Unit
  | 0, _, _ => fun _ => none
  | fuel + 1, tested, .mk _ negated commands background => do
    let before ← get
    if background then
      let child := before.split
      set (child.setDescriptor 0 0)
      commands.forM (runCommand fuel false)
      farewell fuel
      let after ← get
      let job : Job := ⟨child.process, after.clock, after.status⟩
      set { goOn before after with
        clock := before.clock, status := 0, jobs := before.jobs ++ [job], lastJob := some job.number }
    else
      let looked := tested || negated
      match commands with
      | [command] => runCommand fuel looked command
      | commands => runPiped fuel looked before none commands
      let s ← get
      if s.halt.isSome then pure ()
      else if negated then set { s with status := if s.status = 0 then 1 else 0 }
      else
        let watched : Bool := match commands with
          | [command] => isWatched command
          | _ => true
        if s.hasFlag 'e' ∧ !tested ∧ watched ∧ s.status ≠ 0 then set { s with halt := some .exit }
    deliver fuel

def runSteps : (fuel : Nat) → (tested : Bool) → List Step → Running Unit
  | 0, _, _ => fun _ => none
  | _ + 1, _, [] => pure ()
  | fuel + 1, tested, step :: rest => do
    let s ← get
    let link (step : Step) : Link := match step with
      | .mk link _ _ _ => link
    let wanted : Bool := match link step with
      | .always => true
      | .onSuccess => s.status = 0
      | .onFailure => s.status ≠ 0
    let more := rest.head?.any (fun next => link next ≠ .always)
    if wanted ∧ !s.hasFlag 'n' then runStep fuel (tested || more) step
    if ← halted then pure () else runSteps fuel tested rest
end

end Running

/-! ## Programs by their names -/

def maxSteps : Nat := 20000

def maxWordBytes : Nat := 131071

def isPassable (word : String) : Bool := !word.contains '\x00' && word.utf8ByteSize ≤ maxWordBytes

/-- Runs a program by its name. One that does not exist cannot be started, nor one with words that
cannot be passed on, and one that does not end has no outcome. -/
def run? : Programs := fun files name args =>
  if !args.all isPassable then none
  else
    let base := bareName name
    let args := args.map Octets.ofText
    if isShellName base then do
      let ((), s) ← Running.runNested maxSteps [] args (Shell.initial files)
      return ⟨s.world.printed, s.status, s.clock, { s.world.files with working := files.working }⟩
    else (utility? base).map (fun run =>
      let outcome := run { files } args
      ⟨outcome.output, outcome.status, outcome.millis, files⟩)

end RubyInfer.Program
