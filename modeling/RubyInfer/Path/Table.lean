import RubyInfer.Path.Basic

/-!
Sets and tables of paths. Both keep the order in which a place was first put in, and both take two
spellings of one place for the same key.
-/

namespace RubyInfer

structure PathSet where
  paths : List Path := []
deriving Inhabited

namespace PathSet

def contains (s : PathSet) (p : Path) : Bool := s.paths.any p.same

def insert (s : PathSet) (p : Path) : PathSet := if s.contains p then s else ⟨s.paths ++ [p]⟩

def erase (s : PathSet) (p : Path) : PathSet := ⟨s.paths.filter (fun q => !p.same q)⟩

def size (s : PathSet) : Nat := s.paths.length

end PathSet

structure PathMap (α : Type) where
  entries : List (Path × α) := []
deriving Inhabited

namespace PathMap

variable {α : Type}

def get? (m : PathMap α) (p : Path) : Option α := (m.entries.find? (fun e => p.same e.1)).map Prod.snd

def contains (m : PathMap α) (p : Path) : Bool := m.entries.any (fun e => p.same e.1)

def update (m : PathMap α) (p : Path) (empty : α) (f : α → α) : PathMap α :=
  if m.contains p then ⟨m.entries.map (fun e => if p.same e.1 then (e.1, f e.2) else e)⟩
  else ⟨m.entries ++ [(p, f empty)]⟩

def insert (m : PathMap α) (p : Path) (a : α) : PathMap α := m.update p a (fun _ => a)

def erase (m : PathMap α) (p : Path) : PathMap α := ⟨m.entries.filter (fun e => !p.same e.1)⟩

def mapValues (m : PathMap α) (f : α → α) : PathMap α := ⟨m.entries.map (fun e => (e.1, f e.2))⟩

def values (m : PathMap α) : List α := m.entries.map Prod.snd

def size (m : PathMap α) : Nat := m.entries.length

end PathMap

end RubyInfer
