import RubyInfer.Proofs.Path.Table
import RubyInfer.Store.Registry

/-!
# What a registry holds after a change

Every operation but `removeFile` keeps the bindings that are there and changes at most their types
and references, so each lemma says what `get?` gives afterwards in terms of what it gave before.
-/

namespace RubyInfer

namespace Binding

theorem mem_refs_addRef {b : Binding} {node x : NodeRef} :
    x ∈ (b.addRef node).refs ↔ x ∈ b.refs ∨ x = node := by
  unfold addRef
  split
  · rename_i there
    simp only [List.contains_iff_mem] at there
    exact ⟨Or.inl, fun h => h.elim id fun same => same ▸ there⟩
  · simp

@[simp]
theorem addRef_addRef (b : Binding) (node : NodeRef) : (b.addRef node).addRef node = b.addRef node :=
  if_pos (by simp [mem_refs_addRef])

theorem addRef_eq (b : Binding) (node : NodeRef) :
    b.addRef node = { b with refs := (b.addRef node).refs } := by
  unfold addRef
  split <;> rfl

end Binding

namespace Registry

variable {r : Registry} {id : BindingId} {b : Binding} {d : Definition}
variable {f : Binding → Binding} (keeps : ∀ b, (f b).definition = b.definition)

/-! ## Single bindings -/

@[simp]
theorem get?_empty (id : BindingId) : empty.get? id = none := by
  simp [get?, empty]

@[simp]
theorem get?_modify (r : Registry) (i j : BindingId) :
    (r.modify i f keeps).get? j = (r.get? j).map fun b => if i = j then f b else b := by
  simp only [get?, modify, Array.getElem?_modify]
  split <;> cases r.slots[j]? with
    | none => rfl
    | some slot => cases slot <;> rfl

@[simp]
theorem size_modify (r : Registry) (i : BindingId) : (r.modify i f keeps).slots.size = r.slots.size := by
  simp [modify]

@[simp]
theorem references_modify (r : Registry) (i : BindingId) :
    (r.modify i f keeps).references = r.references :=
  rfl

theorem get?_push (r : Registry) (b : Binding) (new : r.find? b.definition = none) (j : BindingId) :
    (r.push b new).get? j = if j = r.slots.size then some b else r.get? j := by
  simp only [get?, push, Array.getElem?_push]
  split <;> rfl

@[simp]
theorem size_push (r : Registry) (b : Binding) (new : r.find? b.definition = none) :
    (r.push b new).slots.size = r.slots.size + 1 :=
  Array.size_push ..

/-! ## Definitions -/

def definition? (r : Registry) (id : BindingId) : Option Definition := (r.get? id).map Binding.definition

theorem definition?_eq_some : r.definition? id = some d ↔ ∃ b, r.get? id = some b ∧ b.definition = d :=
  Option.map_eq_some_iff

theorem lt_size_of_get? (live : r.get? id = some b) : id < r.slots.size :=
  lt_size_of_defined (definition?_eq_some.mpr ⟨b, live, rfl⟩)

theorem mem_byNode : (d, id) ∈ r.byNode ↔ r.definition? id = some d := r.inStep d id

theorem find?_eq_some_iff : r.find? d = some id ↔ r.definition? id = some d := by
  rw [← mem_byNode]
  unfold find?
  constructor
  · intro found
    obtain ⟨e, hit, rfl⟩ := Option.map_eq_some_iff.mp found
    obtain rfl : e.1 = d := by simpa using List.find?_some hit
    exact List.mem_of_find?_eq_some hit
  · intro there
    cases hit : r.byNode.find? (fun e => e.1 = d) with
    | none => exact absurd there (not_mem_of_find? (Option.map_eq_none_iff.mpr hit) id)
    | some e =>
      obtain rfl : e.1 = d := by simpa using List.find?_some hit
      exact congrArg some (r.single _ _ _ (List.mem_of_find?_eq_some hit) there)

theorem find?_eq_none_iff : r.find? d = none ↔ ∀ id, r.definition? id ≠ some d := by
  simp only [Option.eq_none_iff_forall_ne_some, ne_eq, find?_eq_some_iff]

theorem register_of_some (found : r.find? b.definition = some id) :
    r.register b = (id, r.modify id (·.mergeType b.ty) (Binding.definition_mergeType b.ty)) := by
  unfold register
  split
  · rename_i i here
    obtain rfl : id = i := Option.some.inj (found.symm.trans here)
    rfl
  · rename_i new
    cases found.symm.trans new

theorem register_of_none (new : r.find? b.definition = none) :
    r.register b = (r.slots.size, r.push b new) := by
  unfold register
  split
  · rename_i found
    cases new.symm.trans found
  · rfl

theorem register_cases (r : Registry) (b : Binding) :
    (∃ id old, r.get? id = some old ∧ old.definition = b.definition ∧
      r.register b = (id, r.modify id (·.mergeType b.ty) (Binding.definition_mergeType b.ty))) ∨
    ∃ new, r.register b = (r.slots.size, r.push b new) := by
  obtain new | ⟨id, found⟩ := (r.find? b.definition).eq_none_or_eq_some
  · exact .inr ⟨new, register_of_none new⟩
  · obtain ⟨old, live, same⟩ := definition?_eq_some.mp (find?_eq_some_iff.mp found)
    exact .inl ⟨id, old, live, same, register_of_some found⟩

@[simp]
theorem references_register (r : Registry) (b : Binding) : (r.register b).2.references = r.references := by
  obtain ⟨id, old, -, -, same⟩ | ⟨new, pushed⟩ := r.register_cases b
  · rw [same]; rfl
  · rw [pushed]; rfl

/-! ## References -/

theorem get?_modifyAll (ids : List BindingId) (r : Registry) (j : BindingId) :
    (ids.foldl (fun r id => r.modify id f keeps) r).get? j =
      (r.get? j).map fun b => (ids.filter (· = j)).foldl (fun b _ => f b) b := by
  induction ids generalizing r with
  | nil => simp
  | cons id ids ih =>
    rw [List.foldl_cons, ih, get?_modify, Option.map_map]
    congr 1
    funext b
    by_cases here : id = j <;> simp [here]

theorem references_modifyAll (ids : List BindingId) (r : Registry) :
    (ids.foldl (fun r id => r.modify id f keeps) r).references = r.references := by
  induction ids generalizing r with
  | nil => rfl
  | cons id ids ih => exact (ih _).trans (references_modify ..)

theorem size_modifyAll (ids : List BindingId) (r : Registry) :
    (ids.foldl (fun r id => r.modify id f keeps) r).slots.size = r.slots.size := by
  induction ids generalizing r with
  | nil => rfl
  | cons id ids ih => exact (ih _).trans (size_modify ..)

@[simp]
theorem size_putRef (r : Registry) (node : NodeRef) (ids : List BindingId) :
    (r.putRef node ids).slots.size = r.slots.size :=
  size_modifyAll ..

@[simp]
theorem references_putRef (r : Registry) (node : NodeRef) (ids : List BindingId) :
    (r.putRef node ids).references = r.references.update node.file [] (refer node ids) :=
  references_modifyAll ..

theorem get?_putRef (r : Registry) (node : NodeRef) (ids : List BindingId) (j : BindingId) :
    (r.putRef node ids).get? j = (r.get? j).map fun b => if j ∈ ids then b.addRef node else b := by
  have settled : ∀ (js : List BindingId) (b : Binding),
      js.foldl (fun b _ => b.addRef node) b = if js = [] then b else b.addRef node := by
    intro js
    induction js with
    | nil => simp
    | cons j js ih =>
      intro b
      rw [List.foldl_cons, ih]
      split <;> simp
  unfold putRef
  rw [get?_modifyAll]
  show (r.get? j).map _ = _
  congr 1
  funext b
  rw [settled]
  by_cases mem : j ∈ ids
  · have some : ids.filter (· = j) ≠ [] := fun none => by
      simpa [mem] using List.filter_eq_nil_iff.mp none j mem
    rw [if_neg some, if_pos mem]
  · have none : ids.filter (· = j) = [] := List.filter_eq_nil_iff.mpr fun i here same => by
      rw [decide_eq_true_eq] at same
      exact mem (same ▸ here)
    rw [if_pos none, if_neg mem]

/-! ## Removal -/

theorem contains_idsIn (r : Registry) (file : Path) (id : BindingId) :
    (r.idsIn file).contains id = (r.get? id).any (isIn file) := by
  rw [Bool.eq_iff_iff, List.contains_iff_mem, mem_idsIn, Option.any_eq_true]

theorem get?_removeFile (r : Registry) (file : Path) (id : BindingId) :
    (r.removeFile file).2.get? id = ((r.get? id).filter (fun b => !isIn file b)).map (withoutRefs file) := by
  show (r.slots.map _)[id]?.join = _
  rw [Array.getElem?_map]
  unfold get?
  cases r.slots[id]? with
  | none => rfl
  | some slot => rfl

end Registry

end RubyInfer
