import RubyInfer.Syntax.Arena
import RubyInfer.Ty.Basic

/-!
Bindings: what a name has been defined as, where, with which type, and who refers to it.
-/

namespace RubyInfer

/-- The number of a binding. Numbers are never used twice. -/
abbrev BindingId := Nat

inductive BindingKind
  | moduleDef | classDef | method | classMethod | function | variable | parameter | attr
  /-- Names that stand in no source text, such as `self`. -/
  | scope
deriving DecidableEq, Inhabited

namespace BindingKind

def name : BindingKind → String
  | .moduleDef => "module"
  | .classDef => "class"
  | .method => "method"
  | .classMethod => "class_method"
  | .function => "function"
  | .variable => "variable"
  | .parameter => "parameter"
  | .attr => "attribute"
  | .scope => "scope"

def all : List BindingKind :=
  [.moduleDef, .classDef, .method, .classMethod, .function, .variable, .parameter, .attr, .scope]

def ofName? (s : String) : Option BindingKind := all.find? (fun k => k.name = s)

/-- Definitions may be used from elsewhere, and synthetic names have no source: neither is reported
as unused. -/
def exemptFromUnused : BindingKind → Bool
  | .variable | .parameter | .attr => false
  | _ => true

def isCallable : BindingKind → Bool
  | .method | .classMethod | .function => true
  | _ => false

end BindingKind

structure Binding where
  name : String
  qname : String
  kind : BindingKind
  node : NodeRef
  body : Span
  ty : Ty
  refs : List NodeRef := []
deriving Inhabited

structure Definition where
  node : NodeRef
  kind : BindingKind
  name : String
deriving DecidableEq

namespace Binding

def file (b : Binding) : Path := b.node.file

def definition (b : Binding) : Definition := ⟨b.node, b.kind, b.name⟩

def mergeType (b : Binding) (ty : Ty) : Binding := { b with ty := b.ty.either ty }

def refineType (b : Binding) (ty : Ty) : Binding := { b with ty := b.ty.join ty }

def refineAttribute (b : Binding) (ty : Ty) : Binding := if b.kind = .attr then b.refineType ty else b

def addRef (b : Binding) (node : NodeRef) : Binding :=
  if b.refs.contains node then b else { b with refs := b.refs ++ [node] }

def isUnused (b : Binding) : Bool := !b.kind.exemptFromUnused && b.refs.isEmpty

theorem definition_mergeType (ty : Ty) (b : Binding) : (b.mergeType ty).definition = b.definition := rfl

theorem definition_refineType (ty : Ty) (b : Binding) : (b.refineType ty).definition = b.definition := rfl

theorem definition_refineAttribute (ty : Ty) (b : Binding) :
    (b.refineAttribute ty).definition = b.definition := by
  unfold refineAttribute
  split <;> rfl

theorem definition_addRef (node : NodeRef) (b : Binding) : (b.addRef node).definition = b.definition := by
  unfold addRef
  split <;> rfl

end Binding

end RubyInfer
