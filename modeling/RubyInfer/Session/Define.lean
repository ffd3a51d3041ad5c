import RubyInfer.Session.Apply

/-!
Definitions of modules, classes and functions. A module or class that is defined again is the same
one, and the body of a function is not inferred before it is applied.
-/

namespace RubyInfer

namespace Session

def moduleFor (s : Session) (name qname : String) (parent : ScopeId) : ModuleId × Session :=
  match s.moduleNamed? qname with
  | some id => (id, s)
  | none =>
    let id := s.modules.size
    let (scope, scopes) := s.scopes.push .moduleBody (some parent) qname
    (id, { s with
      scopes, owners := s.owners ++ [(scope, .moduleObj id)],
      modules := s.modules.push { name, qname, scope } })

def classFor (s : Session) (name qname : String) (parent : ScopeId) : ClassId × Session :=
  match s.classNamed? qname with
  | some id => (id, s)
  | none =>
    let id := s.classes.size
    let (scope, scopes) := s.scopes.push .classBody (some parent) qname
    let (instances, scopes) := scopes.push .instances (some scope) qname
    (id, { s with
      scopes, owners := s.owners ++ [(scope, .classObj id)],
      classes := s.classes.push { name, qname, scope, instances } })

def setBase (s : Session) (id : ClassId) (base : Option ClassId) : Session :=
  match base with
  | some b =>
    if b ≠ id ∧ (s.classRecord id).base.isNone then
      { s with classes := s.classes.modify id (fun c => { c with base := some b }) }
    else s
  | none => s

def functionFor (s : Session) (node : NodeRef) (name : String) (env : ScopeId)
    (owner : Option Owner) (classLevel isLambda : Bool) :
    FunctionId × Session :=
  match s.functionOf? node with
  | some id => (id, s)
  | none =>
    let id := s.functions.size
    let f : FunctionRecord :=
      { node, name, qname := s.scopes.qualify env name, env, owner, classLevel, isLambda }
    (id, { s with functions := s.functions.push f, functionAt := s.functionAt ++ [(node, id)] })

def bindDefinition (s : Session) (outer inner : ScopeId) (name : String) (node nameNode : NodeRef)
    (kind : BindingKind) (ty : Ty) :
    Session :=
  let s := (s.bind outer .object name nameNode (s.span node) kind ty).2
  (s.bind inner .object selfName nameNode (s.span node) .scope ty).2

def functionKind (owner : Option Owner) (classLevel : Bool) : BindingKind :=
  match owner with
  | none => .function
  | some _ => if classLevel then .classMethod else .method

def nameNode? (s : Session) (node : NodeRef) (locator : NodeId) : Option NodeRef :=
  ((s.tree node).locatorName? locator).map node.sibling

def addMixin (s : Session) (owner : Owner) (m : ModuleId) : Session :=
  let add (mixins : List ModuleId) : List ModuleId := if mixins.contains m then mixins else mixins ++ [m]
  match owner with
  | .classObj c => { s with classes := s.classes.modify c (fun r => { r with mixins := add r.mixins }) }
  | .moduleObj own =>
    if own = m then s else { s with
      modules := s.modules.modify own (fun r => { r with mixins := add r.mixins }) }

def enclosingOwner? (s : Session) (scope : ScopeId) : Option Owner :=
  (s.scopes.chain scope).findSome? s.ownerOf?

/-- Declares an accessor: the attribute and the instance variable share one binding. -/
def declareAttribute (s : Session) (instances : ScopeId) (arg : NodeRef) : Session :=
  let name? : Option String := match s.kind arg with
    | .symbol id => some id
    | .str value => some value
    | _ => none
  match name? with
  | none => s
  | some name =>
    let (id, s) := s.bind instances .object name arg (s.span arg) .attr .unknown
    { s with scopes := s.scopes.enter instances ("@" ++ name) .object id }

end Session

namespace Analysis

open Session

variable {m : Type → Type} [Monad m] [MonadStateOf Session m]

def classMethods : String := "ClassMethods"

def withStatic (visit : VisitIn m) (on : Bool) (node : NodeRef) (body : Option NodeId)
    (scope : ScopeId) : m Ty := do
  let before := (← get).staticContext
  modify fun s => { s with staticContext := on }
  let ty ← visitOption visit node body scope
  modify fun s => { s with staticContext := before }
  return ty

/-- The scope that a definition lands in: that of `Outer` for `Outer::Name`. -/
def definitionScope (visit : VisitIn m) (node : NodeRef) (locator : NodeId) (scope : ScopeId) :
    m ScopeId := do
  match (← get).kind (node.sibling locator) with
  | .member target _ =>
    let outer ← visit (node.sibling target) scope
    return ((← get).memberScope? outer).getD scope
  | _ => return scope

def defineModule (visit : VisitIn m) (node : NodeRef) (locator : NodeId) (body : Option NodeId)
    (scope : ScopeId) : m Ty := do
  match (← get).nameNode? node locator with
  | none =>
    discard (visitOption visit node body scope)
    return .nil
  | some nameNode =>
    match (← get).nameOf? nameNode with
    | none => return .nil
    | some name =>
      if name = classMethods then
        discard (withStatic visit true node body scope)
        return .nil
      let outer ← definitionScope visit node locator scope
      let id ← modifyGet fun s => s.moduleFor name (s.scopes.qualify outer name) outer
      let inner := ((← get).moduleRecord id).scope
      modify (·.bindDefinition outer inner name node nameNode .moduleDef (.moduleObj id))
      discard (withStatic visit false node body inner)
      return .moduleObj id

def baseClass (visit : VisitIn m) (node : NodeRef) (base : Option NodeId) (scope : ScopeId) :
    m (Option ClassId) := do
  match base with
  | none => return none
  | some id => return (classesOf (← visit (node.sibling id) scope)).head?

def defineClass (visit : VisitIn m) (node : NodeRef) (locator : NodeId) (base body : Option NodeId)
    (scope : ScopeId) : m Ty := do
  let base ← baseClass visit node base scope
  match (← get).nameNode? node locator with
  | none =>
    discard (visitOption visit node body scope)
    return .nil
  | some nameNode =>
    match (← get).nameOf? nameNode with
    | none => return .nil
    | some name =>
      let outer ← definitionScope visit node locator scope
      let id ← modifyGet fun s => s.classFor name (s.scopes.qualify outer name) outer
      modify (·.setBase id base)
      let inner := ((← get).classRecord id).scope
      modify (·.bindDefinition outer inner name node nameNode .classDef (.classObj id))
      discard (withStatic visit false node body inner)
      return .classObj id

/-- Where a method is defined, and whether on a receiver: `def self.x` and `def Const.x` belong to
the class itself. -/
def methodScope (visit : VisitIn m) (node : NodeRef) (locator : NodeId) (scope : ScopeId) :
    m (ScopeId × Bool) := do
  match (← get).kind (node.sibling locator) with
  | .member target _ =>
    if (← get).nameOf? (node.sibling target) = some selfName then return (scope, true)
    let receiver ← visit (node.sibling target) scope
    return (((← get).memberScope? receiver).getD scope, true)
  | _ => return (scope, false)

def defineFunction (visit : VisitIn m) (node : NodeRef) (locator : Option NodeId) (isLambda : Bool)
    (scope : ScopeId) : m Ty := do
  match locator with
  | none =>
    let id ← modifyGet (·.functionFor node "lambda" scope none false true)
    modify (·.addUncalled id)
    return .function id
  | some locator =>
    match (← get).nameNode? node locator with
    | none => return .unknown
    | some nameNode =>
      match (← get).nameOf? nameNode with
      | none => return .unknown
      | some name =>
        let (target, onReceiver) ← methodScope visit node locator scope
        let s ← get
        let classLevel := onReceiver || s.staticContext
        let owner := s.ownerOf? target
        let id ← modifyGet (·.functionFor node name target owner classLevel isLambda)
        modify fun s =>
          (s.bind target (if classLevel then .ofClass else .object) name nameNode (s.span node)
            (functionKind owner classLevel) (.function id)).2
        modify (·.addUncalled id)
        return .function id

end Analysis

end RubyInfer
