import RubyInfer.Store.Registry

/-!
Lexical environments. All scopes live in one arena and name their parent by its number, which is
smaller than their own. A scope's table gives for every name the bindings that it has had, in order;
a name stands in one of two tiers.
-/

namespace RubyInfer

abbrev ScopeId := Nat

inductive ScopeKind
  | global | moduleBody | classBody | instances | function | block
deriving DecidableEq, Inhabited

namespace ScopeKind

def name : ScopeKind → String
  | .global => "global"
  | .moduleBody => "module"
  | .classBody => "class"
  | .instances => "instance"
  | .function => "function"
  | .block => "scope"

def all : List ScopeKind := [.global, .moduleBody, .classBody, .instances, .function, .block]

def ofName? (s : String) : Option ScopeKind := all.find? (fun k => k.name = s)

end ScopeKind

/-- Names for objects and names for the class itself are kept apart. -/
inductive Tier
  | object | ofClass
deriving DecidableEq, Inhabited

structure Key where
  name : String
  tier : Tier
deriving DecidableEq

structure Scope where
  kind : ScopeKind
  parent : Option ScopeId
  path : String
  table : List (Key × List BindingId) := []
deriving Inhabited

namespace Scope

/-- The bindings of a name in this very scope. An entry whose bindings are all gone counts as
none. -/
def local? (s : Scope) (name : String) (tier : Tier) : Option (List BindingId) :=
  (s.table.lookup ⟨name, tier⟩).filter (fun ids => !ids.isEmpty)

def add (s : Scope) (key : Key) (id : BindingId) : Scope :=
  if s.table.any (fun e => e.1 = key) then
    { s with table := s.table.map (fun e => if e.1 = key then (e.1, Registry.addNew e.2 id) else e) }
  else { s with table := s.table ++ [(key, [id])] }

end Scope

structure Scopes where
  arena : Array Scope := #[⟨.global, none, "", []⟩]
deriving Inhabited

namespace Scopes

def global : ScopeId := 0

def get (s : Scopes) (id : ScopeId) : Scope := s.arena[id]?.getD ⟨.global, none, "", []⟩

def size (s : Scopes) : Nat := s.arena.size

def push (s : Scopes) (kind : ScopeKind) (parent : Option ScopeId) (path : String) : ScopeId × Scopes :=
  (s.arena.size, ⟨s.arena.push ⟨kind, parent, path, []⟩⟩)

def chainWithin (s : Scopes) : (bound : Nat) → ScopeId → List ScopeId
  | 0, _ => []
  | bound + 1, id =>
    match (s.get id).parent with
    | some p => id :: s.chainWithin bound p
    | none => [id]

/-- A scope and those around it, from the inside out. Numbers fall on the way out. -/
def chain (s : Scopes) (id : ScopeId) : List ScopeId := s.chainWithin (id + 1) id

def local? (s : Scopes) (id : ScopeId) (name : String) (tier : Tier) : Option (List BindingId) :=
  (s.get id).local? name tier

def lookup? (s : Scopes) (id : ScopeId) (name : String) (tier : Tier) : Option (List BindingId) :=
  (s.chain id).findSome? (fun i => s.local? i name tier)

def defining? (s : Scopes) (id : ScopeId) (name : String) : Option ScopeId :=
  (s.chain id).find? (fun i => (s.local? i name .object).isSome)

def enclosing? (s : Scopes) (id : ScopeId) (kinds : List ScopeKind) : Option ScopeId :=
  (s.chain id).find? (fun i => kinds.contains (s.get i).kind)

def qualify (s : Scopes) (id : ScopeId) (name : String) : String :=
  if (s.get id).path.isEmpty then name else (s.get id).path ++ "." ++ name

def enter (s : Scopes) (scope : ScopeId) (name : String) (tier : Tier) (id : BindingId) : Scopes :=
  ⟨s.arena.modify scope (·.add ⟨name, tier⟩ id)⟩

def insert (s : Scopes) (r : Registry) (scope : ScopeId) (tier : Tier) (b : Binding) :
    BindingId × Scopes × Registry :=
  let (id, r) := r.register b
  (id, s.enter scope b.name tier id, r)

/-- Takes bindings that are gone out of every entry; the entries stay. -/
def purge (s : Scopes) (removed : List BindingId) : Scopes :=
  let live (ids : List BindingId) : List BindingId := ids.filter (fun id => !removed.contains id)
  ⟨s.arena.map (fun scope => { scope with table := scope.table.map (fun e => (e.1, live e.2)) })⟩

end Scopes

end RubyInfer
