/-!
Scripts as they are written: lists of pipelines, with quoting, parameters, nested scripts,
redirections, conditions, loops and functions. A script is read line by line, because a line may
give new names to what follows it: `Script.next` gives the steps up to the end of a line.
-/

namespace RubyInfer.Program

inductive Link
  | always | onSuccess | onFailure
deriving DecidableEq, Inhabited

inductive Direction
  | input | output | append
  | force
  | both
deriving DecidableEq, Inhabited

mutual
inductive Part
  | text (s : String) (quoted : Bool)
  | loose (s : String)
  | home (user : String)
  | bad
  | parameter (name : String) (quoted : Bool)
  | size (name : String) (quoted : Bool)
  /-- A parameter with a word for the case that it is missing, or also that it is empty; the sign
  tells what the word is for. -/
  | guarded (name : String) (sign : Char) (emptyToo : Bool) (word : List Part) (quoted : Bool)
  | trimmed (name : String) (front longest : Bool) (pattern : List Part) (quoted : Bool)
  | printed (body : List Step) (quoted : Bool)
  | sum (expression : List Part) (quoted : Bool)

inductive Redirect
  | file (stream : Nat) (direction : Direction) (target : List Part)
  | same (stream : Nat) (target : List Part)
  | given (stream : Nat) (content : List Part)

inductive Command
  | simple (settings : List (String × List Part)) (words : List (List Part)) (redirects : List Redirect)
  | group (body : List Step) (redirects : List Redirect)
  | apart (body : List Step) (redirects : List Redirect)
  | choice (branches : List (List Step × List Step)) (otherwise : List Step) (redirects : List Redirect)
  | loop (wanted : Bool) (test body : List Step) (redirects : List Redirect)
  | each (name : String) (words : Option (List (List Part))) (body : List Step) (redirects : List Redirect)
  | arms (subject : List Part) (arms : List (List (List Part) × List Step)) (redirects : List Redirect)
  | define (name : String) (body : Command)

inductive Step
  | mk (link : Link) (negated : Bool) (commands : List Command) (background : Bool)
end

abbrev Aliases := List (String × String)

instance : Inhabited Step := ⟨.mk .always false [] false⟩

instance : Inhabited Command := ⟨.group [] []⟩

namespace Script

abbrev Reader (α : Type) := List Char → Option (α × List Char)

/-! ## Characters -/

def isBlank (c : Char) : Bool := c = ' ' ∨ c = '\t'

def backquote : Char := '\x60'

def endsWord (c : Char) : Bool := isBlank c || ['\n', ';', '&', '|', '<', '>', '(', ')'].contains c

def isNameStart (c : Char) : Bool := c.isAlpha ∨ c = '_'

def isNameChar (c : Char) : Bool := c.isAlphanum ∨ c = '_'

def skipBlanks : List Char → List Char
  | '\\' :: '\n' :: cs => skipBlanks cs
  | c :: cs => if isBlank c then skipBlanks cs else c :: cs
  | [] => []

def skipComment (cs : List Char) : List Char :=
  match cs with
  | '#' :: _ => cs.dropWhile (· ≠ '\n')
  | _ => cs

def skipGap (cs : List Char) : List Char := skipComment (skipBlanks cs)

def skipLines : (fuel : Nat) → List Char → List Char
  | 0, cs => cs
  | fuel + 1, cs =>
    match skipGap cs with
    | '\n' :: rest => skipLines fuel rest
    | rest => rest

def skipAllLines (cs : List Char) : List Char := skipLines (cs.length + 1) cs

/-! ## Words with a meaning -/

def reservedWords : List String :=
  ["if", "then", "elif", "else", "fi", "while", "until", "for", "in", "do", "done", "case", "esac",
    "\x7b", "\x7d", "!"]

def reserved? (cs : List Char) : Option (String × List Char) :=
  let word := cs.takeWhile (fun c => !endsWord c)
  let text := String.ofList word
  if reservedWords.contains text then some (text, cs.drop word.length) else none

def expectWord (word : String) (cs : List Char) : Option (List Char) :=
  match reserved? (skipAllLines cs) with
  | some (found, rest) => if found = word then some rest else none
  | none => none

def closers : List String := ["then", "elif", "else", "fi", "do", "done", "esac", "\x7d"]

def atEnd (cs : List Char) : Bool :=
  match cs with
  | [] => true
  | ')' :: _ => true
  | ';' :: ';' :: _ => true
  | _ => (reserved? cs).any (fun (word, _) => closers.contains word)

/-! ## Texts in the middle of a script -/

def singleQuoted (cs : List Char) : Option (String × List Char) :=
  let body := cs.takeWhile (· ≠ '\'')
  match cs.drop body.length with
  | _ :: rest => some (String.ofList body, rest)
  | [] => none

def backquoted (quoted : Bool) : List Char → Option (List Char × List Char)
  | [] => none
  | '\\' :: c :: cs =>
    let special := c = '\\' ∨ c = '$' ∨ c = backquote ∨ (c = '"' ∧ quoted)
    (backquoted quoted cs).map (fun (body, rest) => (if special then c :: body else '\\' :: c :: body, rest))
  | c :: cs => if c = backquote then some ([], cs) else
      (backquoted quoted cs).map (fun (body, rest) => (c :: body, rest))

def sumText : (depth : Nat) → List Char → Option (List Char × List Char)
  | _, [] => none
  | 0, ')' :: ')' :: cs => some ([], cs)
  | depth, c :: cs =>
    let next := if c = '(' then depth + 1 else if c = ')' then depth - 1 else depth
    (sumText next cs).map (fun (body, rest) => (c :: body, rest))

def hereLines (stop : List Char) (dropTabs : Bool) : (fuel : Nat) → List Char → List Char × List Char
  | 0, cs => ([], cs)
  | _ + 1, [] => ([], [])
  | fuel + 1, cs =>
    let raw := cs.takeWhile (· ≠ '\n')
    let rest := (cs.drop raw.length).drop 1
    let line := if dropTabs then raw.dropWhile (· = '\t') else raw
    if line = stop then ([], rest)
    else
      let (body, after) := hereLines stop dropTabs fuel rest
      (line ++ '\n' :: body, after)

def hereText (stop : List Char) (dropTabs : Bool) (cs : List Char) : List Char × List Char :=
  let line := cs.takeWhile (· ≠ '\n')
  let (body, after) := hereLines stop dropTabs (cs.length + 1) ((cs.drop line.length).drop 1)
  (body, line ++ '\n' :: after)

/-- Where a word is read: on its own, between double quotes, between braces, between braces inside
double quotes, or as a text with parameters. -/
inductive Place
  | bare | double | brace | quotedBrace | body
deriving DecidableEq

namespace Place

def isQuoted (p : Place) : Bool := p = .double ∨ p = .body ∨ p = .quotedBrace

def plain (p : Place) (s : String) : Part := if p = .brace then .loose s else .text s p.isQuoted

end Place

def escapedPart (place : Place) (c : Char) : List Part :=
  if c = '\n' then []
  else if place.isQuoted then
    let special :=
      c = '$' ∨ c = '\\' ∨ c = backquote ∨ (c = '"' ∧ place ≠ .body) ∨ (c = '\x7d' ∧ place = .quotedBrace)
    [.text (String.ofList (if special then [c] else ['\\', c])) true]
  else [.text (String.singleton c) true]

def parameterName (braced : Bool) (cs : List Char) : Option (String × List Char) :=
  match cs with
  | [] => none
  | c :: rest =>
    if isNameStart c then
      let name := cs.takeWhile isNameChar
      some (String.ofList name, cs.drop name.length)
    else if c.isDigit then
      let name := if braced then cs.takeWhile Char.isDigit else [c]
      some (String.ofList name, cs.drop name.length)
    else if ['@', '*', '#', '?', '-', '$', '!'].contains c then some (String.singleton c, rest)
    else none

/-! ## Grammar -/

def streamDigit (cs : List Char) : Option Nat × List Char :=
  match cs with
  | c :: rest => if c.isDigit then (some (c.toNat - 48), rest) else (none, cs)
  | [] => (none, [])

def atRedirect (cs : List Char) : Bool :=
  match (streamDigit cs).2 with
  | '<' :: _ => true
  | '>' :: _ => true
  | _ => false

def settingName? (cs : List Char) : Option (String × List Char) :=
  match cs with
  | c :: _ =>
    let name := cs.takeWhile isNameChar
    match cs.drop name.length with
    | '=' :: rest => if isNameStart c then some (String.ofList name, rest) else none
    | _ => none
  | [] => none

def functionName? (cs : List Char) : Option (String × List Char) :=
  let name := cs.takeWhile isNameChar
  match skipBlanks (cs.drop name.length) with
  | '(' :: rest =>
    match skipBlanks rest with
    | ')' :: rest => if name.head?.any isNameStart then some (String.ofList name, rest) else none
    | _ => none
  | _ => none

def homeAt? (cs : List Char) : Option (Part × List Char) :=
  match cs with
  | '~' :: rest =>
    let user := rest.takeWhile (fun c => c.isAlphanum ∨ c = '_' ∨ c = '-' ∨ c = '.')
    let after := rest.drop user.length
    if after.head?.all (fun c => c = '/' ∨ c = ':' ∨ endsWord c) then
      some (.home (String.ofList user), after) else none
  | _ => none

/-- Replaces the word at the front as long as it is an alias, each at most once. After an alias that
ends in a blank the next word is replaced too. -/
def unalias : (fuel : Nat) → Aliases → List Char → List Char
  | 0, _, cs => cs
  | fuel + 1, aliases, cs =>
    let word := cs.takeWhile (fun c => !endsWord c)
    match aliases.lookup (String.ofList word) with
    | none => cs
    | some value =>
      let after := cs.drop word.length
      let blanks := after.takeWhile isBlank
      let rest := if value.toList.getLast?.any isBlank then
        blanks ++ unalias fuel aliases (after.drop blanks.length) else after
      unalias fuel (aliases.filter (fun a => a.1 ≠ String.ofList word)) value.toList ++ rest

section
variable (aliases : Aliases)

mutual
/-- The parts of a word up to where it ends. Closing quotes and braces are taken off, what ends a
bare word is not. -/
def parts : (fuel : Nat) → Place → Reader (List Part)
  | 0, _, _ => none
  | _ + 1, place, [] => if place = .bare ∨ place = .body then some ([], []) else none
  | fuel + 1, place, '\\' :: c :: cs => do
    let (ps, rest) ← parts fuel place cs
    return (escapedPart place c ++ ps, rest)
  | fuel + 1, place, '$' :: cs => do
    let (p, cs) ← dollar fuel place.isQuoted cs
    let (ps, rest) ← parts fuel place cs
    return (p :: ps, rest)
  | fuel + 1, place, c :: cs =>
    if c = backquote then do
      let (body, cs) ← backquoted (place = .double ∨ place = .quotedBrace) cs
      let (steps, unread) ← steps fuel body
      if !unread.isEmpty then none
      let (ps, rest) ← parts fuel place cs
      return (.printed steps place.isQuoted :: ps, rest)
    else if c = '"' ∧ place = .double then some ([], cs)
    else if c = '"' ∧ place = .quotedBrace then parts fuel place cs
    else if c = '"' ∧ place ≠ .body then do
      let (inner, cs) ← parts fuel .double cs
      let (ps, rest) ← parts fuel place cs
      return ((if inner.isEmpty then [.text "" true] else inner) ++ ps, rest)
    else if c = '\'' ∧ !place.isQuoted then do
      let (text, cs) ← singleQuoted cs
      let (ps, rest) ← parts fuel place cs
      return (.text text true :: ps, rest)
    else if c = '\x7d' ∧ (place = .brace ∨ place = .quotedBrace) then some ([], cs)
    else if endsWord c ∧ place = .bare then some ([], c :: cs)
    else do
      let (ps, rest) ← parts fuel place cs
      return (place.plain (String.singleton c) :: ps, rest)

def dollar : (fuel : Nat) → (quoted : Bool) → Reader Part
  | 0, _, _ => none
  | fuel + 1, quoted, '(' :: '(' :: cs => do
    let (body, rest) ← sumText 0 cs
    let (ps, _) ← parts fuel .body body
    return (.sum ps quoted, rest)
  | fuel + 1, quoted, '(' :: cs => do
    let (body, rest) ← steps fuel cs
    match skipAllLines rest with
    | ')' :: rest => return (.printed body quoted, rest)
    | _ => none
  | fuel + 1, quoted, '\x7b' :: '#' :: cs =>
    match parameterName true cs with
    | some (name, '\x7d' :: rest) => some (.size name quoted, rest)
    | _ => braced fuel quoted ('#' :: cs)
  | fuel + 1, quoted, '\x7b' :: cs => braced fuel quoted cs
  | _ + 1, quoted, cs =>
    match parameterName false cs with
    | some (name, rest) => some (.parameter name quoted, rest)
    | none => some (.text "$" quoted, cs)

def braced : (fuel : Nat) → (quoted : Bool) → Reader Part
  | 0, _, _ => none
  | fuel + 1, quoted, cs =>
    let bad (cs : List Char) : Option (Part × List Char) := do
      let (_, rest) ← parts fuel .brace cs
      return (.bad, rest)
    match parameterName true cs with
    | none => bad cs
    | some (name, cs) =>
      let isSign (c : Char) : Bool := ['-', '=', '?', '+'].contains c
      let guardedBy (sign : Char) (emptyToo : Bool) (cs : List Char) : Option (Part × List Char) := do
        let (word, rest) ← parts fuel (if quoted then .quotedBrace else .brace) cs
        return (.guarded name sign emptyToo word quoted, rest)
      let trimmedBy (front longest : Bool) (cs : List Char) : Option (Part × List Char) := do
        let (word, rest) ← parts fuel .brace cs
        return (.trimmed name front longest word quoted, rest)
      match cs with
      | '\x7d' :: rest => some (.parameter name quoted, rest)
      | ':' :: sign :: rest => if isSign sign then guardedBy sign true rest else bad rest
      | '%' :: '%' :: rest => trimmedBy false true rest
      | '%' :: rest => trimmedBy false false rest
      | '#' :: '#' :: rest => trimmedBy true true rest
      | '#' :: rest => trimmedBy true false rest
      | sign :: rest => if isSign sign then guardedBy sign false rest else bad (sign :: rest)
      | [] => none

def word : (fuel : Nat) → Reader (List Part)
  | 0, _ => none
  | fuel + 1, cs =>
    match cs, homeAt? cs with
    | [], _ => none
    | _, some (home, cs) => (parts fuel .bare cs).map (fun (ps, rest) => (home :: ps, rest))
    | c :: _, none => if endsWord c then none else parts fuel .bare cs

def settingValue : (fuel : Nat) → Reader (List Part)
  | 0, _ => none
  | fuel + 1, cs =>
    match homeAt? cs with
    | some (home, cs) => (parts fuel .bare cs).map (fun (ps, rest) => (home :: ps, rest))
    | none => parts fuel .bare cs

def redirect : (fuel : Nat) → Reader Redirect
  | 0, _ => none
  | fuel + 1, cs =>
    let (digit, cs) := streamDigit cs
    let toFile (default : Nat) (direction : Direction) (cs : List Char) : Option (Redirect × List Char) := do
      let (target, rest) ← word fuel (skipBlanks cs)
      return (.file (digit.getD default) direction target, rest)
    let toStream (default : Nat) (cs : List Char) : Option (Redirect × List Char) := do
      let (target, rest) ← word fuel (skipBlanks cs)
      return (.same (digit.getD default) target, rest)
    let toText (dropTabs : Bool) (cs : List Char) : Option (Redirect × List Char) := do
      let cs := skipBlanks cs
      let mark := cs.takeWhile (fun c => !endsWord c)
      if mark.isEmpty then none
      let isQuote (c : Char) : Bool := c = '\'' ∨ c = '"' ∨ c = '\\'
      let (body, rest) := hereText (mark.filter (fun c => !isQuote c)) dropTabs (cs.drop mark.length)
      if mark.any isQuote then return (.given (digit.getD 0) [.text (String.ofList body) true], rest)
      else
        let (content, _) ← parts fuel .body body
        return (.given (digit.getD 0) content, rest)
    match cs with
    | '<' :: '<' :: '-' :: rest => toText true rest
    | '<' :: '<' :: rest => toText false rest
    | '<' :: '&' :: rest => toStream 0 rest
    | '<' :: '>' :: rest => toFile 0 .both rest
    | '<' :: rest => toFile 0 .input rest
    | '>' :: '>' :: rest => toFile 1 .append rest
    | '>' :: '&' :: rest => toStream 1 rest
    | '>' :: '|' :: rest => toFile 1 .force rest
    | '>' :: rest => toFile 1 .output rest
    | _ => none

def redirects : (fuel : Nat) → Reader (List Redirect)
  | 0, _ => none
  | fuel + 1, cs =>
    if atRedirect (skipBlanks cs) then do
      let (r, cs) ← redirect fuel (skipBlanks cs)
      let (rs, rest) ← redirects fuel cs
      return (r :: rs, rest)
    else some ([], cs)

def simple : (fuel : Nat) → (settings : Bool) →
    Reader (List (String × List Part) × List (List Part) × List Redirect)
  | 0, _, _ => none
  | fuel + 1, settings, cs =>
    let cs := skipGap cs
    if atRedirect cs then do
      let (r, cs) ← redirect fuel cs
      let ((ss, ws, rs), rest) ← simple fuel settings cs
      return ((ss, ws, r :: rs), rest)
    else if cs.head?.all endsWord then some (([], [], []), cs)
    else
      match (if settings then settingName? cs else none) with
      | some (name, cs) => do
        let (value, cs) ← settingValue fuel cs
        let ((ss, ws, rs), rest) ← simple fuel true cs
        return (((name, value) :: ss, ws, rs), rest)
      | none => do
        let (w, cs) ← word fuel cs
        let ((ss, ws, rs), rest) ← simple fuel false cs
        return ((ss, w :: ws, rs), rest)

def someSteps : (fuel : Nat) → Reader (List Step)
  | 0, _ => none
  | fuel + 1, cs =>
    match steps fuel cs with
    | some (s :: ss, rest) => some (s :: ss, rest)
    | _ => none

def branches : (fuel : Nat) → Reader (List (List Step × List Step) × List Step)
  | 0, _ => none
  | fuel + 1, cs => do
    let (test, cs) ← someSteps fuel cs
    let cs ← expectWord "then" cs
    let (body, cs) ← someSteps fuel cs
    match reserved? (skipAllLines cs) with
    | some ("elif", cs) =>
      let ((bs, otherwise), rest) ← branches fuel cs
      return (((test, body) :: bs, otherwise), rest)
    | some ("else", cs) =>
      let (otherwise, cs) ← someSteps fuel cs
      return (([(test, body)], otherwise), ← expectWord "fi" cs)
    | some ("fi", cs) => return (([(test, body)], []), cs)
    | _ => none

def wordList : (fuel : Nat) → Reader (List (List Part))
  | 0, _ => none
  | fuel + 1, cs =>
    match skipGap cs with
    | [] => some ([], [])
    | '\n' :: rest => some ([], rest)
    | ';' :: rest => some ([], rest)
    | cs => do
      let (w, cs) ← word fuel cs
      let (ws, rest) ← wordList fuel cs
      return (w :: ws, rest)

def armPatterns : (fuel : Nat) → Reader (List (List Part))
  | 0, _ => none
  | fuel + 1, cs => do
    let (w, cs) ← word fuel (skipBlanks cs)
    match skipBlanks cs with
    | '|' :: cs =>
      let (ws, rest) ← armPatterns fuel cs
      return (w :: ws, rest)
    | ')' :: rest => return ([w], rest)
    | _ => none

def armList : (fuel : Nat) → Reader (List (List (List Part) × List Step))
  | 0, _ => none
  | fuel + 1, cs =>
    let cs := skipAllLines cs
    match reserved? cs with
    | some ("esac", rest) => some ([], rest)
    | _ => do
      let cs := match cs with
        | '(' :: rest => rest
        | cs => cs
      let (patterns, cs) ← armPatterns fuel cs
      let (body, cs) ← steps fuel cs
      match skipAllLines cs with
      | ';' :: ';' :: cs =>
        let (more, rest) ← armList fuel cs
        return ((patterns, body) :: more, rest)
      | cs => return ([(patterns, body)], ← expectWord "esac" cs)

def loopBody : (fuel : Nat) → Reader (List Step × List Redirect)
  | 0, _ => none
  | fuel + 1, cs => do
    let cs ← expectWord "do" cs
    let (body, cs) ← someSteps fuel cs
    let cs ← expectWord "done" cs
    let (rs, rest) ← redirects fuel cs
    return ((body, rs), rest)

def eachLoop : (fuel : Nat) → (name : String) → Reader Command
  | 0, _, _ => none
  | fuel + 1, name, cs => do
    let (words, cs) ← match reserved? (skipAllLines cs) with
      | some ("in", cs) => (wordList fuel cs).map (fun (ws, rest) => (some ws, rest))
      | _ =>
        match skipBlanks cs with
        | ';' :: rest => some (none, rest)
        | rest => some (none, rest)
    let ((body, rs), rest) ← loopBody fuel cs
    return (.each name words body rs, rest)

def command : (fuel : Nat) → Reader Command
  | 0, _ => none
  | fuel + 1, cs =>
    let cs := unalias (aliases.length + 1) aliases cs
    match reserved? cs, cs with
    | some ("\x7b", cs), _ => do
      let (body, cs) ← someSteps fuel cs
      let cs ← expectWord "\x7d" cs
      let (rs, rest) ← redirects fuel cs
      return (.group body rs, rest)
    | some ("if", cs), _ => do
      let ((bs, otherwise), cs) ← branches fuel cs
      let (rs, rest) ← redirects fuel cs
      return (.choice bs otherwise rs, rest)
    | some ("for", cs), _ => do
      let cs := skipBlanks cs
      if cs.head?.any isNameStart then
        let (name, cs) ← parameterName false cs
        eachLoop fuel name cs
      else none
    | some ("case", cs), _ => do
      let (subject, cs) ← word fuel (skipBlanks cs)
      let cs ← expectWord "in" cs
      let (arms, cs) ← armList fuel cs
      let (rs, rest) ← redirects fuel cs
      return (.arms subject arms rs, rest)
    | some (word, cs), _ =>
      if word = "while" ∨ word = "until" then do
        let (test, cs) ← someSteps fuel cs
        let ((body, rs), rest) ← loopBody fuel cs
        return (.loop (word = "while") test body rs, rest)
      else none
    | none, '(' :: cs => do
      let (body, cs) ← someSteps fuel cs
      match skipAllLines cs with
      | ')' :: cs =>
        let (rs, rest) ← redirects fuel cs
        return (.apart body rs, rest)
      | _ => none
    | none, cs =>
      match functionName? cs with
      | some (name, cs) => do
        let (body, rest) ← command fuel (skipAllLines cs)
        return (.define name body, rest)
      | none => do
        let ((ss, ws, rs), rest) ← simple fuel true cs
        if ss.isEmpty ∧ ws.isEmpty ∧ rs.isEmpty then none else return (.simple ss ws rs, rest)

def pipeline : (fuel : Nat) → Reader (List Command)
  | 0, _ => none
  | fuel + 1, cs => do
    let (c, cs) ← command fuel cs
    match skipGap cs with
    | '|' :: '|' :: rest => return ([c], '|' :: '|' :: rest)
    | '|' :: rest =>
      let (more, rest) ← pipeline fuel (skipAllLines rest)
      return (c :: more, rest)
    | rest => return ([c], rest)

def linked : (fuel : Nat) → Link → Reader (List Step)
  | 0, _, _ => none
  | fuel + 1, link, cs => do
    let (negated, cs) := match reserved? cs with
      | some ("!", rest) => (true, skipBlanks rest)
      | _ => (false, cs)
    let (commands, cs) ← pipeline fuel cs
    let step : Step := .mk link negated commands false
    match cs with
    | '&' :: '&' :: rest =>
      let (more, rest) ← linked fuel .onSuccess (skipAllLines rest)
      return (step :: more, rest)
    | '|' :: '|' :: rest =>
      let (more, rest) ← linked fuel .onFailure (skipAllLines rest)
      return (step :: more, rest)
    | rest => return ([step], rest)

def item : (fuel : Nat) → Reader (List Step × Bool)
  | 0, _ => none
  | fuel + 1, cs => do
    let (found, cs) ← linked fuel .always cs
    match cs with
    | '&' :: rest => return (([.mk .always false [.group found []] true], true), skipGap rest)
    | rest => return ((found, false), rest)

def steps : (fuel : Nat) → Reader (List Step)
  | 0, _ => none
  | fuel + 1, cs =>
    let cs := skipAllLines cs
    if atEnd cs then some ([], cs)
    else do
      let ((found, apart), cs) ← item fuel cs
      if atEnd cs then return (found, cs)
      let rest ← match cs with
        | ';' :: rest => if apart then none else some rest
        | '\n' :: rest => some rest
        | cs => if apart then some cs else none
      let (more, rest) ← steps fuel rest
      return (found ++ more, rest)

def line : (fuel : Nat) → Reader (List Step)
  | 0, _ => none
  | fuel + 1, cs => do
    let ((found, apart), cs) ← item fuel cs
    let rest ← match cs with
      | ';' :: rest => if apart then none else some (skipGap rest)
      | cs => if apart || cs.isEmpty || cs.head? = some '\n' then some cs else none
    match rest with
    | [] => return (found, [])
    | '\n' :: rest => return (found, rest)
    | rest =>
      let (more, rest) ← line fuel rest
      return (found ++ more, rest)
end

end

inductive Next
  | done
  | bad
  | steps (found : List Step) (rest : List Char)

/-- The next line of a script that has steps. Every call takes a character or goes down one of the
few levels of the grammar. -/
def next (aliases : Aliases) (cs : List Char) : Next :=
  match skipAllLines cs with
  | [] => .done
  | cs =>
    let room := (cs.length + 1) * (aliases.length + 1) *
      ((aliases.map (fun a => a.2.length)).foldr (· + ·) 0 + 1)
    match line aliases (20 * room + 20) cs with
    | some (found, rest) => .steps found rest
    | none => .bad

end Script

end RubyInfer.Program
