import RubyInfer.Path.Basic
import RubyInfer.Syntax.Kind
import RubyInfer.Syntax.Span

/-!
Syntax trees as flat arenas. A node names its children and its parent by their index, and a child
always has a smaller index than the node that owns it. Trees grow bottom up in a `Builder`.
-/

namespace RubyInfer

abbrev NodeId := Nat

structure Node where
  kind : Kind NodeId
  span : Span
  parent : Option NodeId
  children : List NodeId
deriving DecidableEq, Inhabited

structure Ast where
  file : Path
  /-- The digest of the text that the tree was read from. -/
  hash : UInt64
  nodes : Array Node
  root : NodeId
deriving DecidableEq, Inhabited

/-- A node of one particular tree. Every reading of a file makes a tree of its own, and nodes of
different trees differ. -/
structure NodeRef where
  tree : Nat
  file : Path
  id : NodeId
deriving DecidableEq, Inhabited

namespace NodeRef

def sibling (r : NodeRef) (id : NodeId) : NodeRef := { r with id }

end NodeRef

namespace Ast

def kind (a : Ast) (id : NodeId) : Kind NodeId := (a.nodes[id]?.map Node.kind).getD .void

def span (a : Ast) (id : NodeId) : Span := (a.nodes[id]?.map Node.span).getD default

def parent? (a : Ast) (id : NodeId) : Option NodeId := a.nodes[id]?.bind Node.parent

def children (a : Ast) (id : NodeId) : List NodeId := (a.nodes[id]?.map Node.children).getD []

def size (a : Ast) : Nat := a.nodes.size

def nameId? (a : Ast) (id : NodeId) : Option String :=
  match a.kind id with
  | .name text _ => some text
  | _ => none

/-- The name node that a definition's locator designates: `Foo` for `Foo` and `Outer::Foo`, `bar`
for `self.bar`. -/
def locatorName? (a : Ast) (locator : NodeId) : Option NodeId :=
  match a.kind locator with
  | .name _ _ => some locator
  | .member _ attr => some attr
  | _ => none

def ancestorsWithin (a : Ast) : (bound : Nat) → NodeId → List NodeId
  | 0, _ => []
  | bound + 1, id =>
    match a.parent? id with
    | some p => p :: a.ancestorsWithin bound p
    | none => []

def ancestors (a : Ast) (id : NodeId) : List NodeId := a.ancestorsWithin a.size id

def describe (a : Ast) (id : NodeId) : String :=
  "(" ++ (a.kind id).tag ++ " " ++ a.file.text ++ ":" ++ (a.span id).text ++ ")"

end Ast

structure Builder where
  nodes : Array Node := #[]
  /-- The first node that was given a second parent. -/
  clash : Option NodeId := none
deriving DecidableEq, Inhabited

namespace Builder

def adopt (parent : NodeId) (b : Builder) (child : NodeId) : Builder where
  nodes := b.nodes.modify child (fun n => { n with parent := some parent })
  clash := b.clash.or (if (b.nodes[child]?.bind Node.parent).isSome then some child else none)

def push (b : Builder) (kind : Kind NodeId) (span : Span) : NodeId × Builder :=
  let id := b.nodes.size
  let kind := kind.paired
  let b := kind.children.foldl (adopt id) b
  (id, { b with nodes := b.nodes.push ⟨kind, span, none, kind.children⟩ })

def span (b : Builder) (id : NodeId) : Span := (b.nodes[id]?.map Node.span).getD default

def kind (b : Builder) (id : NodeId) : Kind NodeId := (b.nodes[id]?.map Node.kind).getD .void

def size (b : Builder) : Nat := b.nodes.size

def copyWithin : (bound : Nat) → NodeId → StateM Builder NodeId
  | 0, id => pure id
  | bound + 1, id => do
    let b ← get
    let kind ← (b.kind id).mapM (copyWithin bound)
    modifyGet (fun c => c.push kind (b.span id))

/-- A fresh copy of the tree below `id`. Indices fall on the way down, so they bound its height. -/
def deepCopy (b : Builder) (id : NodeId) : NodeId × Builder := (copyWithin (id + 1) id).run b

def finish (b : Builder) (file : Path) (hash : UInt64) (root : NodeId) : Ast := ⟨file, hash, b.nodes, root⟩

end Builder

end RubyInfer
