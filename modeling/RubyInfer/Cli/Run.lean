import RubyInfer.Cli.Args
import RubyInfer.Json.Pretty
import RubyInfer.Options.Read
import RubyInfer.Session.Finish

/-!
What the commands do. A run takes the files and gives them back, with the lines that it prints and
its exit code.
-/

namespace RubyInfer.Cli

structure Environment where
  libraries : Option String := none
  temporary : Path := ⟨"/tmp"⟩
  programs : Programs := fun _ _ _ => none

inductive Failure
  | analysis (e : AnalysisError)
  | missing (file : Path) (e : FileError)
  | notAnalyzed (file : Path)
  | cacheStuck (folder : Path) (e : FileError)
  | endless

def Failure.message : Failure → String
  | .analysis e => e.message
  | .missing file e => "resolve " ++ file.text ++ ": " ++ e.message
  | .notAnalyzed file => file.text ++ " was not analyzed"
  | .cacheStuck folder e => "remove cache dir " ++ folder.text ++ ": " ++ e.message
  | .endless => "analysis does not end"

def Failure.code : Failure → Nat
  | .analysis (.configuration _ _) => 2
  | _ => 1

structure Outcome where
  files : FileTree
  code : Nat := 0
  out : (millis : Nat) → List String := fun _ => []
  err : (millis : Nat) → List String := fun _ => []

def Overrides.apply (v : Overrides) (o : Options) : Options :=
  { o with
    diskCache := o.diskCache && !v.noDiskCache
    prewarm := o.prewarm && !v.noPrewarm
    parser := { o.parser with kind := v.parser.getD o.parser.kind }
    suffix := match v.suffix with
      | some s => if s.startsWith "." then s else "." ++ s
      | none => o.suffix }

def Environment.cacheDir (env : Environment) : Path := Options.defaultCacheDir env.temporary

def Overrides.resolve (v : Overrides) (env : Environment) (files : FileTree) (root : Path) :
    Except AnalysisError Options :=
  let base := match v.config with
    | some path => (Options.load env.cacheDir files path).map (Options.withLibraries · env.libraries)
    | none => Options.discover env.cacheDir env.libraries files root
  base.map (fun o => { v.apply o with programs := env.programs })

def rounds : Nat := Nat.pow 2 64

abbrev Run (α : Type) := ExceptT Failure (StateM FileTree) α

def lift {α : Type} (r : Except AnalysisError α) : Run α :=
  match r with
  | .ok a => pure a
  | .error e => throw (.analysis e)

def finished (env : Environment) (root : Path) (v : Overrides) : Run (Summary × Session) := do
  let options ← lift (v.resolve env (← get) root)
  let s ← lift (Session.new options (← get))
  set s.files
  let s ← lift (s.analyze root)
  set s.files
  match s.finish? rounds with
  | some (summary, s) =>
    set s.files
    return (summary, s)
  | none => throw .endless

structure Lines where
  out : Nat → List String := fun _ => []
  err : Nat → List String := fun _ => []

def report (summary : Summary) (s : Session) (millis : Nat) : Json :=
  .object [("summary", summary.toJson millis),
    ("diagnostics", .array (s.diagnostics.all.map Diagnostic.toJson))]

def analyze (env : Environment) (root : Path) (v : Overrides) (json : Bool) : Run Lines := do
  let (summary, s) ← finished env root v
  let out (millis : Nat) : List String :=
    if json then [(report summary s millis).pretty] else s.diagnostics.all.map Diagnostic.text
  return { out, err := fun millis => [summary.text millis] }

def refLine (s : Session) (file : Path) (row : NodeRef × List BindingId) : String :=
  let targets := row.2.filterMap (fun id => (s.registry.get? id).map Binding.qname)
  file.text ++ ":" ++ (s.span row.1).text ++ ": " ++ (s.nameOf? row.1).getD "?" ++ " -> " ++
    ", ".intercalate targets

def sortRows (s : Session) (rows : List (NodeRef × List BindingId)) : List (NodeRef × List BindingId) :=
  rows.mergeSort (fun a b => (s.span a.1).start ≤ (s.span b.1).start)

def refs (env : Environment) (root file : Path) (v : Overrides) : Run Lines := do
  let (_, s) ← finished env root v
  match s.files.canonical file with
  | .error e => throw (.missing file e)
  | .ok file =>
    if !s.loaded.contains file then throw (.notAnalyzed file)
    let rows := (s.registry.referencesIn? file).getD []
    return { out := fun _ => (sortRows s rows).map (refLine s file) }

def clearCache (env : Environment) (config : Option Path) : Run Lines := do
  let files ← get
  let options ← lift (match config with
    | some path => Options.load env.cacheDir files path
    | none => Options.discover env.cacheDir env.libraries files ⟨"."⟩)
  let dumper ← lift options.dumper
  let (cache, files) := Cache.withDisk dumper options.cacheDir files
  set files
  let (files, failure) := cache.clearDisk files
  set files
  match failure with
  | some e => throw (.cacheStuck options.cacheDir e)
  | none => return { err := fun _ => ["cleared " ++ options.cacheDir.text] }

def runCommand (env : Environment) : Command → Run Lines
  | .analyze root v json => analyze env root v json
  | .refs root file v => refs env root file v
  | .clearCache config => clearCache env config

structure Places where
  single : List Path := []
  roots : List Path := []

def namedPlaces : Command → Places
  | .analyze root v _ => ⟨v.config.toList, [root]⟩
  | .refs root file v => ⟨file :: v.config.toList, [root]⟩
  | .clearCache config => ⟨[config.getD ⟨Options.fileName⟩], []⟩

def optionsFor? (env : Environment) (files : FileTree) : Command → Option Options
  | .analyze root v _ => (v.resolve env files root).toOption
  | .refs root _ v => (v.resolve env files root).toOption
  | .clearCache (some path) => (Options.load env.cacheDir files path).toOption
  | .clearCache none => (Options.discover env.cacheDir env.libraries files ⟨"."⟩).toOption

def optionPlaces (env : Environment) (files : FileTree) (command : Command) : Places :=
  ⟨[], (optionsFor? env files command).toList.flatMap (fun o => o.cacheDir :: o.loadPath)⟩

def run (env : Environment) (files : FileTree) (words : List String) : Outcome :=
  match read words with
  | .error .help => { files, code := Usage.help.code, out := fun _ => usage }
  | .error .invalid => { files, code := Usage.invalid.code, err := fun _ => usage }
  | .ok command =>
    match (runCommand env command).run files with
    | (.ok lines, files) => { files, out := lines.out, err := lines.err }
    | (.error e, files) => { files, code := e.code, err := fun _ => ["Error: " ++ e.message] }

end RubyInfer.Cli
