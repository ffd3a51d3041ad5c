import RubyInfer.Session.Resolve
import RubyInfer.Text.Constant

/-!
Loading files. A file is inferred in the global scope, once unless it is forced; a file that is
being loaded is not loaded again.
-/

namespace RubyInfer

namespace Session

/-- Where a required file may stand: the load path, the folder of the requiring file, the
project. -/
def requireRoots (s : Session) : List Path := s.options.loadPath ++ s.cwd.toList ++ s.projectDir.toList

def findBelow? (s : Session) (rel root : Path) : Option Path :=
  if s.files.isFolder root then
    ((s.files.walk root).find? (fun p => p.endsIn rel)).map s.files.settle else none

/-- The file that is meant by a required path: directly under one of the roots, or else anywhere
below them. -/
def findRequired? (s : Session) (rel : Path) : Option Path :=
  if rel.isAbsolute then if s.files.isFile rel then some (s.files.settle rel) else none
  else
    match (s.requireRoots.map (·.join rel)).find? s.files.isFile with
    | some p => some (s.files.settle p)
    | none => s.requireRoots.findSome? (s.findBelow? rel)

def requiredPath (s : Session) (name : String) : Path :=
  if name.endsWith s.options.suffix then ⟨name⟩ else ⟨name ++ s.options.suffix⟩

def fetch (s : Session) (file : Path) : Option Nat × Session :=
  let (tree, cache, files) := s.cache.get file s.files
  (tree, { s with cache, files })

def recordFailure (s : Session) (file : Path) : Session :=
  { s with
    diagnostics := s.diagnostics.push (.onFile file .error "failed to parse")
    failed := s.failed.insert file }

def skipExhausted (s : Session) : Session := { s with cache := s.cache.clear }

end Session

namespace Analysis

open Session

variable {m : Type → Type} [Monad m] [MonadStateOf Session m]

def inferFile (visit : VisitIn m) (file : Path) (root : NodeRef) : m Ty := do
  let before ← get
  set { before with importStack := before.importStack.insert file, cwd := file.parent? }
  let ty ← visit root Scopes.global
  modify fun s => { s with cwd := before.cwd, importStack := s.importStack.erase file }
  return ty

/-- Loads a tree: it counts as loaded unless its depth was exceeded, and then only this file is
dropped. -/
def loadTree (visit : VisitIn m) (file : Path) (tree : Nat) : m (Option Ty) := do
  let depth := (← get).depth
  modify fun s => { s with failed := s.failed.erase file }
  let ast := (← get).cache.trees[tree]?.getD default
  let ty ← inferFile visit file ⟨tree, ast.file, ast.root⟩
  if (← get).exhausted then
    modify fun s => { s.skipExhausted with exhausted := false, depth }
    return none
  else
    modify fun s => { s with loaded := s.loaded.insert file }
    return some ty

/-- Loads a file and gives its type. Nothing happens when it is being loaded already, or was loaded
and is not forced. -/
def load (visit : VisitIn m) (path : Path) (force : Bool) : m (Option Ty) := do
  let file := (← get).files.settle path
  if (← get).importStack.contains file then return none
  if !force && (← get).loaded.contains file then return none
  match ← modifyGet (·.fetch file) with
  | none =>
    modify (·.recordFailure file)
    return none
  | some tree =>
    let s ← get
    if s.options.maxNodes < (s.cache.trees[tree]?.getD default).size then
      modify skipExhausted
      return none
    else loadTree visit file tree

def require (visit : VisitIn m) (name : String) (force : Bool) : m Unit := do
  let s ← get
  match s.findRequired? (s.requiredPath name) with
  | some file => discard (load visit file force)
  | none => pure ()

def autoload (visit : VisitIn m) (name : String) : m Bool := do
  let file := snakeCase name
  if (← get).autoloaded.contains file then return false
  modify fun s => { s with autoloaded := s.autoloaded ++ [file] }
  let before := (← get).loaded.size
  require visit file false
  return decide (before < (← get).loaded.size)

def resolve (visit : VisitIn m) (node : NodeRef) (id : String) (kind : NameKind) (scope : ScopeId) :
    m (Option (List BindingId)) := do
  let s ← get
  match s.resolveName? scope id kind with
  | some ids => return some ids
  | none =>
    if s.options.autoloadConstants && kind = .plain && isConstant id && s.inProject node then
      if ← autoload visit id then return (← get).resolveName? scope id kind else return none
    else return none

def reference (visit : VisitIn m) (node : NodeRef) (id : String) (kind : NameKind)
    (scope : ScopeId) : m (Ty × Bool) := do
  let found ← resolve visit node id kind scope
  modifyGet (·.settleReference node id found)

end Analysis

end RubyInfer
