import RubyInfer.Options.Basic

/-!
The command line: `analyze ROOT`, `refs ROOT FILE` and `clear-cache`, with their options. Options
and arguments may stand in any order, and each option at most once.
-/

namespace RubyInfer.Cli

structure Overrides where
  config : Option Path := none
  noDiskCache : Bool := false
  noPrewarm : Bool := false
  parser : Option ParserKind := none
  suffix : Option String := none

inductive Command
  | analyze (root : Path) (overrides : Overrides) (json : Bool)
  | clearCache (config : Option Path)
  | refs (root file : Path) (overrides : Overrides)

inductive Usage
  | help
  | invalid
deriving DecidableEq

def Usage.code : Usage → Nat
  | .help => 0
  | .invalid => 2

def usage : List String :=
  ["usage: [-v] analyze ROOT [--json] [OPTIONS]",
    "       [-v] refs ROOT FILE [OPTIONS]",
    "       [-v] clear-cache [--config FILE]",
    "options: --config FILE, --no-disk-cache, --no-prewarm, --parser json|command, --suffix SUFFIX"]

structure Grammar where
  flags : List String
  options : List String := []
  arguments : Nat := 0

structure Given where
  flags : List String := []
  options : List (String × String) := []
  arguments : List String := []

def verbose : String := "verbose"

def isValid (option value : String) : Bool :=
  match option with
  | "config" => !value.isEmpty
  | "parser" => (ParserKind.ofName? value).isSome
  | _ => true

namespace Given

def addFlag (g : Given) (name : String) : Except Usage Given :=
  if g.flags.contains name then .error .invalid else .ok { g with flags := g.flags ++ [name] }

def addOption (g : Given) (name value : String) : Except Usage Given :=
  if (g.options.lookup name).isSome ∨ !isValid name value then .error .invalid
  else .ok { g with options := g.options ++ [(name, value)] }

def addArgument (g : Given) (grammar : Grammar) (value : String) : Except Usage Given :=
  if value.isEmpty ∨ grammar.arguments ≤ g.arguments.length then .error .invalid
  else .ok { g with arguments := g.arguments ++ [value] }

def addLetters (g : Given) : List Char → Except Usage Given
  | [] => .ok g
  | 'v' :: cs => do (← g.addFlag verbose).addLetters cs
  | 'h' :: _ => .error .help
  | _ => .error .invalid

end Given

def isOption (word : String) : Bool := word.startsWith "-" && word ≠ "-"

def splitLong (word : String) : String × Option String :=
  let cs := word.toList.drop 2
  let name := cs.takeWhile (· ≠ '=')
  match cs.drop name.length with
  | [] => (String.ofList name, none)
  | _ :: value => (String.ofList name, some (String.ofList value))

def scan (grammar : Grammar) : Given → List String → Except Usage Given
  | g, [] => .ok g
  | g, "--" :: words => words.foldlM (fun g word => g.addArgument grammar word) g
  | g, word :: words => do
    if word.startsWith "--" then
      let (name, value) := splitLong word
      if name = "help" then throw (if value.isNone then .help else .invalid)
      else if grammar.flags.contains name then
        if value.isSome then throw .invalid
        scan grammar (← g.addFlag name) words
      else if grammar.options.contains name then
        match value, words with
        | some value, words => scan grammar (← g.addOption name value) words
        | none, value :: words => if isOption value then throw .invalid else
            scan grammar (← g.addOption name value) words
        | none, [] => throw .invalid
      else throw .invalid
    else if isOption word then scan grammar (← g.addLetters (word.toList.drop 1)) words
    else scan grammar (← g.addArgument grammar word) words

def overridesGrammar : Grammar :=
  { flags := [verbose, "no-disk-cache", "no-prewarm"], options := ["config", "parser", "suffix"] }

def Given.overrides (g : Given) : Overrides where
  config := (g.options.lookup "config").map Path.mk
  noDiskCache := g.flags.contains "no-disk-cache"
  noPrewarm := g.flags.contains "no-prewarm"
  parser := (g.options.lookup "parser").bind ParserKind.ofName?
  suffix := g.options.lookup "suffix"

def readAnalyze (words : List String) : Except Usage Command := do
  let grammar := { overridesGrammar with flags := "json" :: overridesGrammar.flags, arguments := 1 }
  let g ← scan grammar {} words
  match g.arguments with
  | [root] => return .analyze ⟨root⟩ g.overrides (g.flags.contains "json")
  | _ => throw .invalid

def readRefs (words : List String) : Except Usage Command := do
  let g ← scan { overridesGrammar with arguments := 2 } {} words
  match g.arguments with
  | [root, file] => return .refs ⟨root⟩ ⟨file⟩ g.overrides
  | _ => throw .invalid

def readClearCache (words : List String) : Except Usage Command := do
  let g ← scan { flags := [verbose], options := ["config"] } {} words
  return .clearCache ((g.options.lookup "config").map Path.mk)

def commandNames : List String := ["analyze", "clear-cache", "refs", "help"]

def readHelp : List String → Usage
  | [] => .help
  | [name] => if commandNames.contains name then .help else .invalid
  | _ => .invalid

def leadingLetters (seen : Bool) : List Char → Except Usage Bool
  | [] => .ok seen
  | 'v' :: cs => if seen then .error .invalid else leadingLetters true cs
  | c :: _ => .error (if c = 'h' ∨ c = 'V' then .help else .invalid)

def readWith : (seen : Bool) → List String → Except Usage Command
  | _, [] => .error .invalid
  | _, "analyze" :: words => readAnalyze words
  | _, "clear-cache" :: words => readClearCache words
  | _, "refs" :: words => readRefs words
  | _, "help" :: words => .error (readHelp words)
  | _, "--help" :: _ => .error .help
  | _, "--version" :: _ => .error .help
  | seen, "--verbose" :: words => if seen then .error .invalid else readWith true words
  | seen, word :: words =>
    if isOption word ∧ !word.startsWith "--" then
      match leadingLetters seen (word.toList.drop 1) with
      | .ok seen => readWith seen words
      | .error usage => .error usage
    else .error .invalid

def read (words : List String) : Except Usage Command := readWith false words

end RubyInfer.Cli
