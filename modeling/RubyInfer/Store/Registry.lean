import RubyInfer.Path.Table
import RubyInfer.Store.Binding

/-!
The registry: every binding by its number, and for every file which of its nodes refer to which
bindings.
-/

namespace RubyInfer

/-- What is defined under a number. A binding that went with its file leaves an empty slot. -/
def defined (slots : Array (Option Binding)) (id : BindingId) : Option Definition :=
  slots[id]?.join.map Binding.definition

structure Registry where
  slots : Array (Option Binding)
  /-- The numbers by what is defined under them. -/
  byNode : List (Definition × BindingId)
  /-- By file, the nodes that refer to something, in the order of their first reference. -/
  references : PathMap (List (NodeRef × List BindingId))
  inStep : ∀ d id, (d, id) ∈ byNode ↔ defined slots id = some d
  single : ∀ d i j, (d, i) ∈ byNode → (d, j) ∈ byNode → i = j

namespace Registry

def empty : Registry where
  slots := #[]
  byNode := []
  references := {}
  inStep := by simp [defined]
  single := by simp

instance : Inhabited Registry := ⟨empty⟩

def get? (r : Registry) (id : BindingId) : Option Binding := r.slots[id]?.join

theorem defined_modify {f : Binding → Binding} (keeps : ∀ b, (f b).definition = b.definition)
    (slots : Array (Option Binding)) (i id : BindingId) :
    defined (slots.modify i (Option.map f)) id = defined slots id := by
  unfold defined
  rw [Array.getElem?_modify]
  split
  · cases slots[id]? with
    | none => rfl
    | some slot => cases slot <;> simp [keeps]
  · rfl

/-- Changes a binding, but not what it defines. -/
def modify (r : Registry) (id : BindingId) (f : Binding → Binding)
    (keeps : ∀ b, (f b).definition = b.definition) : Registry :=
  { r with
    slots := r.slots.modify id (Option.map f)
    inStep := fun d i => by rw [defined_modify keeps, r.inStep] }

def find? (r : Registry) (d : Definition) : Option BindingId :=
  (r.byNode.find? (fun e => e.1 = d)).map Prod.snd

theorem not_mem_of_find? {r : Registry} {d : Definition} (new : r.find? d = none) (id : BindingId) :
    (d, id) ∉ r.byNode := by
  intro there
  simpa using List.find?_eq_none.mp (Option.map_eq_none_iff.mp new) _ there

theorem defined_push (slots : Array (Option Binding)) (b : Binding) (id : BindingId) :
    defined (slots.push (some b)) id = if id = slots.size then some b.definition else defined slots id := by
  unfold defined
  rw [Array.getElem?_push]
  split <;> rfl

theorem lt_size_of_defined {slots : Array (Option Binding)} {id : BindingId} {d : Definition}
    (here : defined slots id = some d) : id < slots.size := by
  unfold defined at here
  cases slot : slots[id]? with
  | none => simp [slot] at here
  | some _ => exact (Array.getElem?_eq_some_iff.mp slot).1

def push (r : Registry) (b : Binding) (new : r.find? b.definition = none) : Registry :=
  { r with
    slots := r.slots.push (some b)
    byNode := (b.definition, r.slots.size) :: r.byNode
    inStep := fun d id => by
      rw [List.mem_cons, r.inStep, defined_push]
      split
      · rename_i last
        subst last
        have fresh : defined r.slots r.slots.size ≠ some d := fun here =>
          Nat.lt_irrefl _ (lt_size_of_defined here)
        simp [fresh, eq_comm]
      · rename_i other
        simp [other]
    single := fun d i j here there => by
      rw [List.mem_cons, Prod.mk.injEq] at here there
      obtain ⟨rfl, rfl⟩ | here := here <;> obtain ⟨same, last⟩ | there := there
      · exact last.symm
      · exact absurd there (not_mem_of_find? new j)
      · exact absurd (same ▸ here) (not_mem_of_find? new i)
      · exact r.single d i j here there }

/-- Adds a binding. The same definition seen again keeps its number and takes the new type in. -/
def register (r : Registry) (b : Binding) : BindingId × Registry :=
  match found : r.find? b.definition with
  | some id => (id, r.modify id (·.mergeType b.ty) (Binding.definition_mergeType b.ty))
  | none => (r.slots.size, r.push b found)

def addNew (ids : List BindingId) (id : BindingId) : List BindingId :=
  if ids.contains id then ids else ids ++ [id]

def refer (node : NodeRef) (ids : List BindingId) (index : List (NodeRef × List BindingId)) :
    List (NodeRef × List BindingId) :=
  if index.any (fun e => e.1 = node) then
    index.map (fun e => if e.1 = node then (e.1, ids.foldl addNew e.2) else e)
  else index ++ [(node, ids.foldl addNew [])]

def putRef (r : Registry) (node : NodeRef) (ids : List BindingId) : Registry :=
  let r := { r with references := r.references.update node.file [] (refer node ids) }
  ids.foldl (fun r id => r.modify id (·.addRef node) (Binding.definition_addRef node)) r

def referencesIn? (r : Registry) (file : Path) : Option (List (NodeRef × List BindingId)) :=
  r.references.get? file

def removeReferences (r : Registry) (file : Path) : Registry :=
  { r with references := r.references.erase file }

def isIn (file : Path) (b : Binding) : Bool := b.file.same file

def idsIn (r : Registry) (file : Path) : List BindingId :=
  (List.range r.slots.size).filter (fun id => (r.get? id).any (isIn file))

theorem mem_idsIn {r : Registry} {file : Path} {id : BindingId} :
    id ∈ r.idsIn file ↔ ∃ b, r.get? id = some b ∧ isIn file b = true := by
  unfold idsIn
  rw [List.mem_filter, List.mem_range, Option.any_eq_true]
  constructor
  · exact And.right
  · rintro ⟨b, live, here⟩
    have inRange : id < r.slots.size := lt_size_of_defined (congrArg (Option.map Binding.definition) live)
    exact ⟨inRange, b, live, here⟩

def withoutRefs (file : Path) (b : Binding) : Binding :=
  { b with refs := b.refs.filter (fun n => !n.file.same file) }

/-- The slots without the bindings of a file and the references from it. -/
def slotsWithout (r : Registry) (file : Path) : Array (Option Binding) :=
  r.slots.map (fun slot => (slot.filter (fun b => !isIn file b)).map (withoutRefs file))

theorem defined_slotsWithout (r : Registry) (file : Path) (id : BindingId) :
    defined (r.slotsWithout file) id =
      if (r.idsIn file).contains id then none else defined r.slots id := by
  have removed : (r.idsIn file).contains id = (r.get? id).any (isIn file) := by
    rw [Bool.eq_iff_iff, List.contains_iff_mem, mem_idsIn, Option.any_eq_true]
  rw [removed]
  unfold defined slotsWithout get?
  rw [Array.getElem?_map]
  rcases r.slots[id]? with _ | _ | b
  · rfl
  · rfl
  · cases here : isIn file b with
    | true => simp [here]
    | false =>
      simp only [Option.map_some, Option.join_some, Option.filter_some, Option.any_some, here]
      rfl

/-- Forgets a file: its bindings, the references in it, and the references to its bindings. The
numbers of the bindings that went are returned. -/
def removeFile (r : Registry) (file : Path) : List BindingId × Registry :=
  let removed := r.idsIn file
  let live (ids : List BindingId) : List BindingId := ids.filter (fun id => !removed.contains id)
  (removed, {
    slots := r.slotsWithout file
    byNode := r.byNode.filter (fun e => !removed.contains e.2)
    references :=
      (r.references.erase file).mapValues (fun index => index.map (fun e => (e.1, live e.2)))
    inStep := fun d id => by
      rw [List.mem_filter, r.inStep, defined_slotsWithout]
      cases removed.contains id <;> simp
    single := fun d i j here there =>
      r.single d i j (List.mem_filter.mp here).1 (List.mem_filter.mp there).1 })

def all (r : Registry) : List (BindingId × Binding) :=
  (List.range r.slots.size).filterMap (fun id => (r.get? id).map (fun b => (id, b)))

def size (r : Registry) : Nat := r.all.length

def isEmpty (r : Registry) : Bool := r.size == 0

def referencingNodes (r : Registry) : Nat := (r.references.values.map List.length).foldr (· + ·) 0

def crossReferences (r : Registry) : Nat := (r.all.map (fun e => e.2.refs.length)).foldr (· + ·) 0

end Registry

end RubyInfer
