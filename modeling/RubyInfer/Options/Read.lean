import RubyInfer.Options.Basic
import RubyInfer.Toml.Read

/-!
Options from files and from the environment. Keys that mean nothing are passed over; what is left
out has its default value.
-/

namespace RubyInfer

namespace Toml.Value

def text? : Value → Option String
  | .string s => some s
  | _ => none

def bool? : Value → Option Bool
  | .boolean b => some b
  | _ => none

def nat? : Value → Option Nat
  | .integer (.ofNat n) => if n < Nat.pow 2 64 then some n else none
  | _ => none

def list? {α : Type} (item : Value → Option α) : Value → Option (List α)
  | .array items => items.mapM item
  | .tables elements => elements.mapM item
  | _ => none

def path? (v : Value) : Option Path := v.text?.map Path.mk

def isVoid : Value → Bool
  | .array [] => true
  | .table _ [] => true
  | _ => false

def choice? : Value → Option String
  | .string s => some s
  | .table _ [(name, content)] => if content.isVoid then some name else none
  | _ => none

/-- The values of named fields, from a table, or from a list in the order of the names. A field that
is left out has none. A date counts as a table with a field that nobody names. -/
def record? (names : List String) : Value → Option (List (Option Value))
  | .datetime => some (names.map (fun _ => none))
  | .table _ fields => some (names.map (fun name => fields.lookup name))
  | .array items => some ((List.range names.length).map (items[·]?))
  | .tables elements => some ((List.range names.length).map (elements[·]?))
  | _ => none

end Toml.Value

def fieldOr {α : Type} (read : Toml.Value → Option α) (default : α) : Option Toml.Value → Option α
  | some v => read v
  | none => some default

namespace ParserOptions

def ofToml? (v : Toml.Value) : Option ParserOptions := do
  let base : ParserOptions := {}
  match ← v.record? ["kind", "program", "args", "timeout_secs"] with
  | [kind, program, args, timeout] =>
    return {
      kind := ← fieldOr (fun v => v.choice?.bind ParserKind.ofName?) base.kind kind
      program := ← fieldOr (fun v => v.path?.map some) base.program program
      args := ← fieldOr (·.list? Toml.Value.text?) base.args args
      timeoutSecs := ← fieldOr Toml.Value.nat? base.timeoutSecs timeout }
  | _ => none

end ParserOptions

namespace Options

def ofFields? (cacheDir : Path) (fields : Toml.Fields) : Option Options := do
  let base : Options := { cacheDir }
  return {
    suffix := ← fieldOr Toml.Value.text? base.suffix (fields.lookup "suffix")
    loadPath := ← fieldOr (·.list? Toml.Value.path?) base.loadPath (fields.lookup "load_path")
    exclude := ← fieldOr (·.list? Toml.Value.text?) base.exclude (fields.lookup "exclude")
    cacheDir := ← fieldOr Toml.Value.path? base.cacheDir (fields.lookup "cache_dir")
    diskCache := ← fieldOr Toml.Value.bool? base.diskCache (fields.lookup "disk_cache")
    prewarm := ← fieldOr Toml.Value.bool? base.prewarm (fields.lookup "prewarm")
    maxDepth := ← fieldOr Toml.Value.nat? base.maxDepth (fields.lookup "max_depth")
    maxNodes := ← fieldOr Toml.Value.nat? base.maxNodes (fields.lookup "max_nodes")
    maxRecursion := ← fieldOr Toml.Value.nat? base.maxRecursion (fields.lookup "max_recursion")
    autoloadConstants := ← fieldOr Toml.Value.bool? base.autoloadConstants
        (fields.lookup "autoload_constants")
    parser := ← fieldOr ParserOptions.ofToml? base.parser (fields.lookup "parser") }

def invalid : String := "invalid analyzer configuration"

def ofToml? (cacheDir : Path) (text : String) : Option Options := (Toml.read? text).bind (ofFields? cacheDir)

def load (cacheDir : Path) (files : FileTree) (path : Path) : Except AnalysisError Options :=
  match files.readText path with
  | .error e => .error (.configuration path e.message)
  | .ok text =>
    match ofToml? cacheDir text with
    | some o => .ok o
    | none => .error (.configuration path invalid)

def withLibraries (o : Options) (libraries : Option String) : Options :=
  let add (known : List Path) (text : String) : List Path :=
    if text.isEmpty ∨ known.any (Path.mk text).same then known else known ++ [⟨text⟩]
  match libraries with
  | some list => { o with loadPath := (list.splitOn ":").foldl add o.loadPath }
  | none => o

def fileOf (files : FileTree) (root : Path) : Path :=
  let folder := if files.isFile root then root.parent?.getD root else root
  folder.join ⟨fileName⟩

def discover (cacheDir : Path) (libraries : Option String) (files : FileTree) (root : Path) :
    Except AnalysisError Options :=
  let path := fileOf files root
  if files.isFile path then (load cacheDir files path).map (·.withLibraries libraries)
  else .ok (withLibraries { cacheDir } libraries)

end Options

end RubyInfer
