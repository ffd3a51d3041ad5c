import RubyInfer.Session.Load
import RubyInfer.Ty.Operator

/-!
Assignment. A target is a name, an attribute of a value, or a list of targets that takes a value
apart.
-/

namespace RubyInfer

namespace Session

def blockChain (s : Session) : List ScopeId → List ScopeId
  | [] => []
  | id :: rest => if (s.scopes.get id).kind = .block then id :: s.blockChain rest else [id]

/-- Where an assignment to a local name lands: the nearest block or body that has it, or else the
scope itself. -/
def localScope (s : Session) (scope : ScopeId) (name : String) : ScopeId :=
  let has (id : ScopeId) : Bool := (s.scopes.local? id name .object).isSome && name ≠ blockName
  ((s.blockChain (s.scopes.chain scope)).find? has).getD scope

def plainName (name : String) : String := String.ofList (name.toList.dropWhile (· = '@'))

def bindInstanceVariable (s : Session) (c : ClassId) (node : NodeRef) (name : String) (ty : Ty) : Session :=
  let table := (s.classRecord c).instances
  let s := (s.bind table .object name node (s.span node) .attr ty).2
  s.refineAttributes ((s.scopes.local? table (plainName name) .object).getD []) ty

def bindName (s : Session) (node : NodeRef) (name : String) (nameKind : NameKind) (ty : Ty)
    (kind : BindingKind) (scope : ScopeId) :
    Session :=
  let put (scope : ScopeId) : Session := (s.bind scope .object name node (s.span node) kind ty).2
  match nameKind with
  | .plain => put (s.localScope scope name)
  | .ivar =>
    match s.selfClass? scope with
    | some c => s.bindInstanceVariable c node name ty
    | none => put scope
  | .cvar =>
    match s.selfClass? scope with
    | some c => put (s.classRecord c).scope
    | none => put scope
  | .gvar => put Scopes.global

def bindMember (s : Session) (receiver : Ty) (attr : NodeRef) (ty : Ty) : Session :=
  match s.nameOf? attr with
  | none => s
  | some name =>
    match s.lookupMember? receiver name with
    | none => s
    | some ids => (s.refineAttributes ids ty).refer attr ids

def partType (s : Session) (target : NodeRef) (elem : Ty) : Ty :=
  match s.kind target with
  | .starred _ => .listOf elem
  | _ => elem

end Session

namespace Analysis

open Session

variable {m : Type → Type} [Monad m] [MonadStateOf Session m]

def bindTargetWithin (visit : VisitIn m) (kind : BindingKind) (scope : ScopeId) :
    (bound : Nat) → NodeRef → Ty → m Unit
  | 0, _, _ => pure ()
  | bound + 1, target, ty => do
    match (← get).kind target with
    | .name id nameKind => modify (·.bindName target id nameKind ty kind scope)
    | .member receiver attr =>
      let this ← visit (target.sibling receiver) scope
      modify (·.bindMember this (target.sibling attr) ty)
    | .array elts =>
      let elem := ty.destructured
      elts.forM fun id => do
        let part := target.sibling id
        bindTargetWithin visit kind scope bound part ((← get).partType part elem)
    | .starred value =>
      bindTargetWithin visit kind scope bound (target.sibling value) (if ty.isList then ty else .listOf ty)
    | _ => discard (visit target scope)

/-- Binds a target to a type. Nested targets are different nodes of one tree, so its size bounds
their depth. -/
def bindTarget (visit : VisitIn m) (target : NodeRef) (ty : Ty) (kind : BindingKind)
    (scope : ScopeId) : m Unit := do
  bindTargetWithin visit kind scope (((← get).tree target).size + 1) target ty

end Analysis

end RubyInfer
