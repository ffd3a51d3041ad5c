import RubyInfer.Cache.Basic
import RubyInfer.Diagnostic
import RubyInfer.Options.Basic
import RubyInfer.Store.Scopes

/-!
The state of an analysis: scopes and bindings, the functions, classes and modules met so far, what
is being loaded and called right now, and the diagnostics. Inference is a computation on this state.
-/

namespace RubyInfer

inductive Phase
  | idle | loading | fixpoint | done
deriving DecidableEq, Inhabited

def Phase.name : Phase → String
  | .idle => "Idle"
  | .loading => "Loading"
  | .fixpoint => "Fixpoint"
  | .done => "Done"

inductive Owner
  | classObj (id : ClassId)
  | moduleObj (id : ModuleId)
deriving DecidableEq, Inhabited

structure FunctionRecord where
  node : NodeRef
  name : String
  qname : String
  env : ScopeId
  owner : Option Owner
  classLevel : Bool
  isLambda : Bool
  called : Bool := false
  frame : Option ScopeId := none
  ret : Ty := .unknown
  active : Nat := 0
deriving Inhabited

structure ClassRecord where
  name : String
  qname : String
  scope : ScopeId
  instances : ScopeId
  base : Option ClassId := none
  mixins : List ModuleId := []
deriving Inhabited

structure ModuleRecord where
  name : String
  qname : String
  scope : ScopeId
  mixins : List ModuleId := []
deriving Inhabited

/-- Applications of a function to a receiver and arguments of the same shapes count as the same. -/
structure CallKey where
  function : FunctionId
  receiver : Ty
  args : List Ty
deriving DecidableEq

structure Session where
  options : Options
  files : FileTree
  cache : Cache
  scopes : Scopes := {}
  registry : Registry := .empty
  functions : Array FunctionRecord := #[]
  functionAt : List (NodeRef × FunctionId) := []
  classes : Array ClassRecord := #[]
  modules : Array ModuleRecord := #[]
  owners : List (ScopeId × Owner) := []
  callStack : List CallKey := []
  importStack : PathSet := {}
  /-- The functions that no call has reached, in the order of their definition. -/
  uncalled : List FunctionId := []
  returns : List Ty := []
  loaded : PathSet := {}
  failed : PathSet := {}
  diagnostics : Diagnostics := {}
  resolved : List NodeRef := []
  unresolved : List NodeRef := []
  autoloaded : List String := []
  /-- Whether names of the class itself come first. -/
  staticContext : Bool := false
  cwd : Option Path := none
  projectDir : Option Path := none
  depth : Nat := 0
  /-- Whether the depth was exceeded in the file being loaded. -/
  exhausted : Bool := false
  calls : Nat := 0
  phase : Phase := .idle
deriving Inhabited

abbrev Analysis := StateM Session

abbrev VisitIn (m : Type → Type) := NodeRef → ScopeId → m Ty

abbrev Visit := VisitIn Analysis

def selfName : String := "self"

def blockName : String := "&block"

namespace Session

/-! ## Views -/

def new (options : Options) (files : FileTree) : Except AnalysisError Session := do
  let dumper ← options.dumper
  if options.diskCache then
    let (cache, files) := Cache.withDisk dumper options.cacheDir files
    return { options, files, cache }
  else return { options, files, cache := { dumper } }

def tree (s : Session) (node : NodeRef) : Ast := s.cache.trees[node.tree]?.getD default

def kind (s : Session) (node : NodeRef) : Kind NodeId := (s.tree node).kind node.id

def span (s : Session) (node : NodeRef) : Span := (s.tree node).span node.id

def nameOf? (s : Session) (node : NodeRef) : Option String := (s.tree node).nameId? node.id

def describe (s : Session) (node : NodeRef) : String := (s.tree node).describe node.id

/-- The function that was made of a node, which is known by its tree and its index. -/
def functionOf? (s : Session) (node : NodeRef) : Option FunctionId :=
  (s.functionAt.find? (fun e => e.1.tree = node.tree ∧ e.1.id = node.id)).map Prod.snd

def function (s : Session) (id : FunctionId) : FunctionRecord := s.functions[id]?.getD default

def classRecord (s : Session) (id : ClassId) : ClassRecord := s.classes[id]?.getD default

def moduleRecord (s : Session) (id : ModuleId) : ModuleRecord := s.modules[id]?.getD default

def classNamed? (s : Session) (qname : String) : Option ClassId :=
  s.classes.findIdx? (fun c => c.qname = qname)

def moduleNamed? (s : Session) (qname : String) : Option ModuleId :=
  s.modules.findIdx? (fun m => m.qname = qname)

def ownerOf? (s : Session) (scope : ScopeId) : Option Owner := s.owners.lookup scope

def names (s : Session) : Ty.Names where
  function id := match s.functions[id]? with
    | some f => f.name
    | none => Ty.Names.anonymous.function id
  classObj id := match s.classes[id]? with
    | some c => c.qname
    | none => Ty.Names.anonymous.classObj id
  moduleObj id := match s.modules[id]? with
    | some m => m.qname
    | none => Ty.Names.anonymous.moduleObj id

def typeOf (s : Session) (ids : List BindingId) : Ty :=
  .makeUnion (ids.filterMap (fun id => (s.registry.get? id).map Binding.ty))

def isCallable (s : Session) (ids : List BindingId) : Bool :=
  ids.any (fun id => (s.registry.get? id).any (·.kind.isCallable))

/-- What a name stands for, from the inside out: first in one tier, then in the other. -/
def lookupName? (s : Session) (scope : ScopeId) (name : String) : Option (List BindingId) :=
  let first : Tier := if s.staticContext then .ofClass else .object
  let second : Tier := if s.staticContext then .object else .ofClass
  (s.scopes.lookup? scope name first).or (s.scopes.lookup? scope name second)

def selfType (s : Session) (scope : ScopeId) : Ty :=
  match s.scopes.lookup? scope selfName .object with
  | some ids => s.typeOf ids
  | none => .unknown

def classOf? : Ty → Option ClassId
  | .inst c => some c
  | .classObj c => some c
  | _ => none

def selfClass? (s : Session) (scope : ScopeId) : Option ClassId :=
  (s.selfType scope).members.findSome? classOf?

def defaultSelf (s : Session) (id : FunctionId) : Ty :=
  let f := s.function id
  match f.owner with
  | some (.classObj c) => if f.classLevel then .classObj c else .inst c
  | some (.moduleObj m) => .moduleObj m
  | none => .unknown

def account (s : Session) : String :=
  "Analyzer \x7b phase: " ++ s.phase.name ++ ", bindings: " ++ Nat.repr s.registry.size ++
    ", files: " ++ Nat.repr s.loaded.size
    ++ " \x7d"

/-! ## Updates -/

def modifyFunction (s : Session) (id : FunctionId) (f : FunctionRecord → FunctionRecord) : Session :=
  { s with functions := s.functions.modify id f }

def report (s : Session) (node : NodeRef) (category : Category) (message : String) : Session :=
  { s with diagnostics := s.diagnostics.push ⟨node.file, category, s.span node, message⟩ }

def refer (s : Session) (node : NodeRef) (ids : List BindingId) : Session :=
  { s with
    registry := s.registry.putRef node ids
    unresolved := s.unresolved.filter (· ≠ node)
    resolved := if s.resolved.contains node then s.resolved else s.resolved ++ [node] }

/-- Records that a node refers to nothing, unless it has referred to something. -/
def markUnresolved (s : Session) (node : NodeRef) : Session :=
  if s.resolved.contains node ∨ s.unresolved.contains node then s else
    { s with unresolved := s.unresolved ++ [node] }

def bind (s : Session) (scope : ScopeId) (tier : Tier) (name : String) (node : NodeRef)
    (body : Span) (kind : BindingKind) (ty : Ty) :
    BindingId × Session :=
  let b : Binding := { name, qname := s.scopes.qualify scope name, kind, node, body, ty }
  let (id, scopes, registry) := s.scopes.insert s.registry scope tier b
  (id, { s with scopes, registry })

def refineAttributes (s : Session) (ids : List BindingId) (ty : Ty) : Session :=
  { s with
    registry := ids.foldl
      (fun r id => r.modify id (·.refineAttribute ty) (Binding.definition_refineAttribute ty)) s.registry }

def addUncalled (s : Session) (id : FunctionId) : Session :=
  if (s.function id).called ∨ s.uncalled.contains id then s else { s with uncalled := s.uncalled ++ [id] }

end Session

end RubyInfer
