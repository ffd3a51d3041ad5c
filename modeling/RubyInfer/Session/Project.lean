import RubyInfer.Session.Infer

/-!
What a user does with a session: analyze a project, load a file, forget a file, load it again.
-/

namespace RubyInfer

namespace Session

def isSource (s : Session) (file : Path) : Bool :=
  file.text.endsWith s.options.suffix && !s.options.exclude.any (fun x => file.text.contains x)

def sources (s : Session) (root : Path) : List Path :=
  if s.files.isFile root then [root] else (s.files.walk root).filter s.isSource

def removeFile (s : Session) (path : Path) : Session :=
  let file := s.files.settle path
  let elsewhere (node : NodeRef) : Bool := !node.file.same file
  let (removed, registry) := s.registry.removeFile file
  { s with
    registry
    scopes := s.scopes.purge removed
    diagnostics := s.diagnostics.removeFile file
    loaded := s.loaded.erase file
    failed := s.failed.erase file
    resolved := s.resolved.filter elsewhere
    unresolved := s.unresolved.filter elsewhere
    cache := s.cache.remove file
    uncalled := s.uncalled.filter (fun id => elsewhere (s.function id).node)
    functionAt := s.functionAt.filter (fun e => elsewhere e.1) }

def loadFile (s : Session) (path : Path) : Option Ty × Session :=
  (Analysis.load Analysis.inferTop path false).run s

def reload (s : Session) (path : Path) : Option Ty × Session :=
  (Analysis.load Analysis.inferTop path true).run (s.removeFile path)

def loadAll (s : Session) (files : List Path) : Session :=
  files.foldl (fun s file => if s.loaded.contains file then s else (s.loadFile file).2) s

def prewarm (s : Session) (paths : List Path) : Session :=
  let (cache, files) := s.cache.prewarm paths s.files
  { s with cache, files }

/-- Loads all source files of a project. Only a root that is not there is an error. -/
def analyze (s : Session) (root : Path) : Except AnalysisError Session :=
  match s.files.canonical root with
  | .error e => .error (.configuration root e.message)
  | .ok top =>
    let project := if s.files.isFolder top then top else top.parent?.getD top
    let s := { s with phase := .loading, projectDir := some project }
    let files := s.sources top
    .ok ((if s.options.prewarm then s.prewarm files else s).loadAll files)

end Session

end RubyInfer
