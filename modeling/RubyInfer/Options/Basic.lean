import RubyInfer.Dumper
import RubyInfer.Error

/-!
The options of an analysis.
-/

namespace RubyInfer

inductive ParserKind
  | json | command
deriving DecidableEq, Inhabited

namespace ParserKind

def name : ParserKind → String
  | .json => "json"
  | .command => "command"

def all : List ParserKind := [.json, .command]

def ofName? (s : String) : Option ParserKind := all.find? (fun k => k.name = s)

end ParserKind

structure ParserOptions where
  kind : ParserKind := .json
  program : Option Path := none
  args : List String := []
  timeoutSecs : Nat := 30
deriving DecidableEq, Inhabited

structure Options where
  suffix : String := ".rb"
  loadPath : List Path := []
  exclude : List String := []
  cacheDir : Path
  diskCache : Bool := true
  prewarm : Bool := true
  maxDepth : Nat := 2000
  maxNodes : Nat := 2000000
  maxRecursion : Nat := 3
  autoloadConstants : Bool := false
  parser : ParserOptions := {}
  /-- What the program of the parser does when it is started. -/
  programs : Programs := fun _ _ _ => none
deriving Inhabited

namespace Options

def fileName : String := "sonar.toml"

def defaultCacheDir (temporary : Path) : Path := (temporary.join ⟨"sonar"⟩).join ⟨"ast_cache"⟩

def dumper (o : Options) : Except AnalysisError Dumper :=
  match o.parser.kind, o.parser.program with
  | .json, _ => .ok .content
  | .command, some program =>
    .ok (.command o.programs program.text o.parser.args (max o.parser.timeoutSecs 1 * 1000))
  | .command, none => .error (.configuration ⟨fileName⟩ "parser.kind = \"command\" needs parser.program")

end Options

end RubyInfer
