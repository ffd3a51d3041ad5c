import RubyInfer.Session.Define

/-!
Calls. Some names have a meaning of their own unless the program defines them: requiring files,
declaring accessors, mixing in modules, and making functions of blocks.
-/

namespace RubyInfer.Analysis

open Session

variable {m : Type → Type} [Monad m] [MonadStateOf Session m]

def visitAll (visit : VisitIn m) (node : NodeRef) (ids : List NodeId) (scope : ScopeId) : m (List Ty) :=
  ids.mapM (fun id => visit (node.sibling id) scope)

inductive SpecialForm
  /-- `load` loads a file again, `require` does not. -/
  | require (force : Bool)
  | accessors
  | mixins
  | functionOfBlock
deriving DecidableEq

def SpecialForm.ofName? : String → Option SpecialForm
  | "require" | "require_relative" => some (.require false)
  | "load" => some (.require true)
  | "attr_accessor" | "attr_reader" | "attr_writer" => some .accessors
  | "include" | "extend" | "prepend" => some .mixins
  | "lambda" | "proc" => some .functionOfBlock
  | _ => none

def requireAll (visit : VisitIn m) (node : NodeRef) (args : List NodeId) (force : Bool)
    (scope : ScopeId) : m Ty := do
  let targets ← visitAll visit node args scope
  (targets.flatMap Ty.stringLiterals).forM (fun name => require visit name force)
  return .bool

def declareAccessors (node : NodeRef) (args : List NodeId) (scope : ScopeId) : m Ty := do
  match (← get).selfClass? scope with
  | none => return .nil
  | some c =>
    let instances := ((← get).classRecord c).instances
    args.forM (fun id => modify (·.declareAttribute instances (node.sibling id)))
    return .nil

def modulesOf (tys : List Ty) : List ModuleId :=
  (tys.flatMap Ty.members).filterMap fun
    | .moduleObj m => some m
    | _ => none

def mixIn (visit : VisitIn m) (node : NodeRef) (args : List NodeId) (scope : ScopeId) : m Ty := do
  let included ← visitAll visit node args scope
  match (← get).enclosingOwner? scope with
  | none => return .nil
  | some owner =>
    (modulesOf included).forM (fun m => modify (·.addMixin owner m))
    return .nil

def specialForm (visit : VisitIn m) (node : NodeRef) (name : String) (args : List NodeId)
    (block : Option NodeId) (scope : ScopeId) :
    m (Option Ty) := do
  if ((← get).lookupName? scope name).isSome then return none
  match SpecialForm.ofName? name with
  | none => return none
  | some (.require force) => return some (← requireAll visit node args force scope)
  | some .accessors => return some (← declareAccessors node args scope)
  | some .mixins => return some (← mixIn visit node args scope)
  | some .functionOfBlock => block.mapM (fun id => visit (node.sibling id) scope)

def keywordName (s : Session) (node : NodeRef) : String :=
  match s.kind node with
  | .keyword arg _ => arg
  | _ => ""

def visitKeywords (visit : VisitIn m) (node : NodeRef) (ids : List NodeId) (scope : ScopeId) :
    m (List (String × Ty)) :=
  ids.mapM fun id => do
    let name := keywordName (← get) (node.sibling id)
    let ty ← visit (node.sibling id) scope
    return (name, ty)

def callArgs (visit : VisitIn m) (node : NodeRef) (args keywords : List NodeId)
    (star block : Option NodeId) (scope : ScopeId) :
    m CallArgs := do
  let positional ← visitAll visit node args scope
  let keywords ← visitKeywords visit node keywords scope
  let star ← star.mapM (fun id => visit (node.sibling id) scope)
  let block ← block.mapM (fun id => visit (node.sibling id) scope)
  return { positional, keywords, star, block }

def callTarget (visit : VisitIn m) (func : NodeRef) (call : CallArgs) (scope : ScopeId) : m Ty := do
  match (← get).kind func with
  | .member target attr =>
    let this ← visit (func.sibling target) scope
    match (← get).nameOf? (func.sibling attr) with
    | none => return .unknown
    | some name => callMember visit this name (func.sibling attr) call
  | .name id kind =>
    let (callee, _) ← reference visit func id kind scope
    applyAll visit callee ((← get).selfType scope) call
  | _ =>
    let callee ← visit func scope
    applyAll visit callee ((← get).selfType scope) call

def callNode (visit : VisitIn m) (node : NodeRef) (func : NodeId) (args keywords : List NodeId)
    (star block : Option NodeId) (scope : ScopeId) : m Ty := do
  let special ← match (← get).kind (node.sibling func) with
    | .name id .plain => specialForm visit node id args block scope
    | _ => pure none
  match special with
  | some ty => return ty
  | none =>
    let call ← callArgs visit node args keywords star block scope
    callTarget visit (node.sibling func) call scope

end RubyInfer.Analysis
