import RubyInfer.Session.Target

/-!
Application. The body of a function is inferred anew for each call, in a frame that all calls share,
and what it returns is collected. Calls that cannot tell anything new are cut short.
-/

namespace RubyInfer

structure CallArgs where
  positional : List Ty := []
  keywords : List (String × Ty) := []
  star : Option Ty := none
  block : Option Ty := none
deriving Inhabited

def takeKeyword? (name : String) : List (String × Ty) → Option (Ty × List (String × Ty))
  | [] => none
  | (k, ty) :: rest =>
    if k = name then some (ty, rest) else
      (takeKeyword? name rest).map (fun (found, rest) => (found, (k, ty) :: rest))

namespace Session

def callKey (function : FunctionId) (receiver : Ty) (call : CallArgs) : CallKey :=
  ⟨function, receiver.shape, call.positional.map Ty.shape⟩

/-- Whether a call is cut short: the function is not there, the file is given up, the same call is
under way, or the function is active too often. -/
def refuses (s : Session) (key : CallKey) : Bool :=
  decide (s.functions.size ≤ key.function) || s.exhausted || s.callStack.contains key ||
    decide (s.options.maxRecursion ≤ (s.function key.function).active)

def markCalled (s : Session) (id : FunctionId) : Session :=
  let s := s.modifyFunction id (fun f => { f with called := true })
  { s with uncalled := s.uncalled.filter (· ≠ id), calls := s.calls + 1 }

/-- The frame of a function, made at its first application. The body of a block sees the names of
the method around it. -/
def enterFrame (s : Session) (id : FunctionId) : ScopeId × Session :=
  let f := s.function id
  match f.frame with
  | some frame => (frame, s)
  | none =>
    let (frame, scopes) := s.scopes.push (if f.isLambda then .block else .function) (some f.env) f.qname
    (frame, { s with scopes }.modifyFunction id (fun f => { f with frame := some frame }))

def selfNode (s : Session) (node : NodeRef) (locator : Option NodeId) : NodeRef :=
  match locator.bind (s.tree node).locatorName? with
  | some id => node.sibling id
  | none => node

def pushCall (s : Session) (key : CallKey) : Session :=
  let s := s.modifyFunction key.function (fun f => { f with active := f.active + 1 })
  { s with callStack := key :: s.callStack, returns := .unknown :: s.returns }

/-- An application ends with the type of its body; what was returned on the way counts as well. -/
def popCall (s : Session) (key : CallKey) (body : Ty) : Ty × Session :=
  let result := body.join (s.returns.headD .unknown)
  let s := s.modifyFunction key.function
    (fun f => { f with active := f.active - 1, ret := f.ret.join result })
  (result, { s with callStack := s.callStack.erase key, returns := s.returns.tail })

def addReturn (s : Session) (ty : Ty) : Session :=
  match s.returns with
  | [] => s
  | acc :: rest => { s with returns := acc.join ty :: rest }

end Session

namespace Analysis

open Session

variable {m : Type → Type} [Monad m] [MonadStateOf Session m]

def bindParam (visit : VisitIn m) (param : NodeRef) (ty : Ty) (frame : ScopeId) : m Unit := do
  match (← get).kind param with
  | .name id _ => modify fun s => (s.bind frame .object id param (s.span param) .parameter ty).2
  | _ => bindTarget visit param ty .parameter frame

structure Supply where
  args : List Ty
  keywords : List (String × Ty)

def Supply.next (supply : Supply) (name : Option String) : Option Ty × Supply :=
  match supply.args with
  | ty :: rest => (some ty, { supply with args := rest })
  | [] =>
    match name.bind (takeKeyword? · supply.keywords) with
    | some (ty, keywords) => (some ty, { supply with keywords })
    | none => (none, supply)

/-- Binds the positional parameters, each with its default value if it has one. A default is
inferred even when it is not used. -/
def bindPositional (visit : VisitIn m) (node : NodeRef) (frame : ScopeId) :
    List (NodeId × Option NodeId) → Supply → m Supply
  | [], supply => pure supply
  | (id, default) :: rest, supply => do
    let param := node.sibling id
    let (given, supply) := supply.next ((← get).nameOf? param)
    let fallback ← match default with
      | some d => visit (node.sibling d) frame
      | none => pure .unknown
    bindParam visit param (given.getD fallback) frame
    bindPositional visit node frame rest supply

def withDefaults (params : Params NodeId) : List (NodeId × Option NodeId) :=
  let plain := params.positional.length - params.defaults.length
  (params.positional.zipIdx).map
    (fun (id, i) => (id, if plain ≤ i then params.defaults[i - plain]? else none))

def bindEach (visit : VisitIn m) (node : NodeRef) (frame : ScopeId) : List NodeId → List Ty → m Unit
  | [], _ => pure ()
  | id :: ids, args => do
    bindParam visit (node.sibling id) (args.headD .unknown) frame
    bindEach visit node frame ids args.tail

def restList (extra : List Ty) (star : Option Ty) : Ty :=
  let spread : List Ty := match star with
    | some (.list elem _) => [elem]
    | _ => []
  .listOf (.makeUnion (extra ++ spread))

def bindParams (visit : VisitIn m) (node : NodeRef) (params : Params NodeId) (call : CallArgs)
    (frame : ScopeId) : m Unit := do
  let supply ← bindPositional visit node frame (withDefaults params) ⟨call.positional, call.keywords⟩
  let spare := supply.args.length - params.afterRest.length
  bindEach visit node frame params.afterRest (supply.args.drop spare)
  params.rest.forM fun id =>
    bindParam visit (node.sibling id) (restList (supply.args.take spare) call.star) frame
  params.restKw.forM fun id =>
    bindParam visit (node.sibling id) (.dict (.symbol none) (.makeUnion (supply.keywords.map Prod.snd))) frame
  params.blockArg.forM fun id => bindParam visit (node.sibling id) (call.block.getD .unknown) frame
  call.block.forM fun block => modify fun s =>
    (s.bind frame .object blockName node (s.span node) .scope block).2

def visitOption (visit : VisitIn m) (node : NodeRef) (child : Option NodeId) (scope : ScopeId) : m Ty :=
  match child with
  | some id => visit (node.sibling id) scope
  | none => pure .nil

def enter (visit : VisitIn m) (key : CallKey) (receiver : Ty) (call : CallArgs) : m Ty := do
  let f := (← get).function key.function
  match (← get).kind f.node with
  | .function locator params body _ _ =>
    let frame ← modifyGet (·.enterFrame key.function)
    if !f.isLambda then
      modify fun s => (s.bind frame .object selfName (s.selfNode f.node locator)
        (s.span f.node) .scope receiver).2
    bindParams visit f.node params call frame
    modify (·.pushCall key)
    let ty ← visitOption visit f.node body frame
    modifyGet (·.popCall key ty)
  | _ => return .unknown

/-- Applies a function. A call that is cut short tells nothing. -/
def apply (visit : VisitIn m) (id : FunctionId) (receiver : Ty) (call : CallArgs) : m Ty := do
  modify (·.markCalled id)
  let key := callKey id receiver call
  if (← get).refuses key then return .unknown else enter visit key receiver call

def applyAll (visit : VisitIn m) (callee receiver : Ty) (call : CallArgs) : m Ty := do
  let results ← callee.functions.mapM (fun id => apply visit id receiver call)
  return .makeUnion results

def applyBlock (visit : VisitIn m) (scope : ScopeId) (args : List Ty) : m Ty := do
  let s ← get
  match s.scopes.lookup? scope blockName .object with
  | some ids => applyAll visit (s.typeOf ids) .unknown { positional := args }
  | none => return .unknown

def construct (visit : VisitIn m) (call : CallArgs) : List ClassId → m (List Ty)
  | [] => pure []
  | c :: rest => do
    let s ← get
    match s.lookupMember? (.inst c) "initialize" with
    | some ids => discard (applyAll visit (s.typeOf ids) (.inst c) call)
    | none => pure ()
    return .inst c :: (← construct visit call rest)

def classesOf (ty : Ty) : List ClassId :=
  ty.members.filterMap fun
    | .classObj c => some c
    | _ => none

/-- Calls a member of a value. Nothing is reported about a member that is not known. -/
def callMember (visit : VisitIn m) (receiver : Ty) (name : String) (attr : NodeRef)
    (call : CallArgs) : m Ty := do
  if name = "new" ∧ !(classesOf receiver).isEmpty then
    return .makeUnion (← construct visit call (classesOf receiver))
  if name = "call" ∧ !receiver.functions.isEmpty then return ← applyAll visit receiver .unknown call
  match (← get).lookupMember? receiver name with
  | none => return .unknown
  | some ids =>
    modify (·.refer attr ids)
    let s ← get
    if s.isCallable ids then applyAll visit (s.typeOf ids) receiver call else return s.typeOf ids

end Analysis

end RubyInfer
