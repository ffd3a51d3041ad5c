import RubyInfer.Session.Call

/-!
Inference of one node. `inferNode` says what each kind of node means in terms of a visit to others;
`infer` closes the recursion with a room for nesting, and a visit without room gives the file up.
-/

namespace RubyInfer.Analysis

open Session

variable {m : Type → Type} [Monad m] [MonadStateOf Session m]

def inferBlock (visit : VisitIn m) (node : NodeRef) (scope : ScopeId) : List NodeId → Ty → m Ty
  | [], last => pure last
  | id :: rest, _ => do
    let ty ← visit (node.sibling id) scope
    inferBlock visit node scope rest ty

def inferName (visit : VisitIn m) (node : NodeRef) (id : String) (kind : NameKind)
    (scope : ScopeId) : m Ty := do
  let (ty, callable) ← reference visit node id kind scope
  if callable then applyAll visit ty ((← get).selfType scope) {} else return ty

def inferMember (visit : VisitIn m) (node : NodeRef) (target attr : NodeId) (scope : ScopeId) : m Ty := do
  let this ← visit (node.sibling target) scope
  match (← get).nameOf? (node.sibling attr) with
  | none => return .unknown
  | some name => callMember visit this name (node.sibling attr) {}

def inferElement (visit : VisitIn m) (node : NodeRef) (scope : ScopeId) (id : NodeId) : m Ty := do
  let ty ← visit (node.sibling id) scope
  match (← get).kind (node.sibling id), ty with
  | .starred _, .list elem _ => return elem
  | _, ty => return ty

def visitKnown (visit : VisitIn m) (node : NodeRef) (child : Option NodeId) (scope : ScopeId) : m Ty :=
  match child with
  | some id => visit (node.sibling id) scope
  | none => pure .unknown

def inferGuarded (visit : VisitIn m) (node : NodeRef) (body rescue orelse ensure : Option NodeId)
    (scope : ScopeId) : m Ty := do
  let b ← visitOption visit node body scope
  let r ← visitKnown visit node rescue scope
  let e ← visitKnown visit node orelse scope
  discard (visitOption visit node ensure scope)
  return .known [b, r, e]

def inferHandler (visit : VisitIn m) (node : NodeRef) (exceptions : List NodeId)
    (binder body orelse : Option NodeId) (scope : ScopeId) :
    m Ty := do
  let classes ← visitAll visit node exceptions scope
  binder.forM (fun id => bindTarget visit (node.sibling id) (.caught classes) .variable scope)
  let t ← visitOption visit node body scope
  let e ← visitKnown visit node orelse scope
  return .known [t, e]

def yieldArgs (visit : VisitIn m) (node : NodeRef) (value : Option NodeId) (scope : ScopeId) :
    m (List Ty) := do
  match value with
  | none => return []
  | some id =>
    match (← get).kind (node.sibling id) with
    | .array elts => visitAll visit node elts scope
    | _ => return [← visit (node.sibling id) scope]

def isSlice (s : Session) (node : NodeRef) (part : Option NodeId) : Bool :=
  part.any fun id =>
    match s.kind (node.sibling id) with
    | .slice _ _ => true
    | _ => false

def inferNode (visit : VisitIn m) (node : NodeRef) (scope : ScopeId) : m Ty := do
  match (← get).kind node with
  | .block stmts => inferBlock visit node scope stmts .nil
  | .moduleDef locator body _ => defineModule visit node locator body scope
  | .classDef locator base body isStatic _ =>
    if isStatic then
      discard (withStatic visit true node body scope)
      return .nil
    else defineClass visit node locator base body scope
  | .function locator _ _ isLambda _ => defineFunction visit node locator isLambda scope
  | .call func args keywords star block => callNode visit node func args keywords star block scope
  | .member target attr => inferMember visit node target attr scope
  | .binary op left right =>
    let l ← visit (node.sibling left) scope
    let r ← visit (node.sibling right) scope
    return .binary op l r
  | .unary op operand => return .unary op (← visit (node.sibling operand) scope)
  | .assign target value =>
    let ty ← visit (node.sibling value) scope
    bindTarget visit (node.sibling target) ty .variable scope
    return ty
  | .name id kind => inferName visit node id kind scope
  | .symbol id => return .symbol (some id)
  | .str value => return .str (some value)
  | .strEmbed value =>
    discard (visitOption visit node value scope)
    return .str none
  | .regexp pattern stop =>
    discard (visitOption visit node pattern scope)
    discard (visitOption visit node stop scope)
    return .unknown
  | .int _ | .float _ => return .num
  | .array elts => return .ofElements (← elts.mapM (inferElement visit node scope))
  | .dict keys values =>
    let k ← visitAll visit node keys scope
    let v ← visitAll visit node values scope
    return .dict (.makeUnion k) (.makeUnion v)
  | .starred value => visit (node.sibling value) scope
  | .keyword _ value => visitOption visit node value scope
  | .branch test body orelse =>
    discard (visit (node.sibling test) scope)
    let yes ← visitOption visit node body scope
    let no ← visitOption visit node orelse scope
    return yes.either no
  | .loop test body =>
    discard (visit (node.sibling test) scope)
    discard (visitOption visit node body scope)
    return .nil
  | .each target iter body =>
    let ty ← visit (node.sibling iter) scope
    bindTarget visit (node.sibling target) ty.iterated .variable scope
    discard (visitOption visit node body scope)
    return ty
  | .guarded body rescue orelse ensure => inferGuarded visit node body rescue orelse ensure scope
  | .handler exceptions binder body orelse => inferHandler visit node exceptions binder body orelse scope
  | .ret value =>
    let ty ← visitOption visit node value scope
    modify (·.addReturn ty)
    return ty
  | .yield value => applyBlock visit scope (← yieldArgs visit node value scope)
  | .subscript value part =>
    let ty ← visit (node.sibling value) scope
    discard (visitOption visit node part scope)
    return ty.subscripted (isSlice (← get) node part)
  | .index value => visit (node.sibling value) scope
  | .slice lower upper =>
    discard (visitOption visit node lower scope)
    discard (visitOption visit node upper scope)
    return .unknown
  | .control _ | .undef _ | .void => return .nil

/-- Infers a node with `room` levels left for it and what is inside it. Once the room has run out,
nothing more is inferred until the file is given up. -/
def infer : (room : Nat) → Visit
  | 0, _, _ => do
    modify fun s => { s with exhausted := true }
    return .unknown
  | room + 1, node, scope => do
    if (← get).exhausted then return .unknown
    modify fun s => { s with depth := s.depth + 1 }
    let ty ← inferNode (infer room) node scope
    modify fun s => { s with depth := s.depth - 1 }
    return ty

def inferTop : Visit := fun node scope => do infer (← get).options.maxDepth node scope

end RubyInfer.Analysis
