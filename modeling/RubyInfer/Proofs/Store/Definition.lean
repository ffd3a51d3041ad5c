import RubyInfer.Proofs.Store.Registry

/-!
# The definitions in a registry

What a binding defines, and where, never changes while the binding is live: types and references
grow around it. `definition?` is that part of the registry, and each operation says how it changes.
-/

namespace RubyInfer

namespace Registry

variable {id : BindingId} {r : Registry} {d : Definition}

theorem mem_all {b : Binding} : (id, b) ∈ r.all ↔ r.get? id = some b := by
  unfold all
  rw [List.mem_filterMap]
  constructor
  · rintro ⟨i, -, found⟩
    obtain ⟨c, live, same⟩ := Option.map_eq_some_iff.mp found
    cases same
    exact live
  · intro live
    exact ⟨id, List.mem_range.mpr (lt_size_of_get? live), by rw [live]; rfl⟩

theorem definition?_modify {f : Binding → Binding} (keeps : ∀ b, (f b).definition = b.definition)
    (r : Registry) (i id : BindingId) : (r.modify i f keeps).definition? id = r.definition? id :=
  defined_modify keeps r.slots i id

theorem definition?_modifyAll {f : Binding → Binding} (keeps : ∀ b, (f b).definition = b.definition)
    (ids : List BindingId) (r : Registry) (id : BindingId) :
    (ids.foldl (fun r id => r.modify id f keeps) r).definition? id = r.definition? id := by
  induction ids generalizing r with
  | nil => rfl
  | cons i ids ih => exact (ih _).trans (definition?_modify keeps r i id)

theorem definition?_push (r : Registry) (b : Binding) (new : r.find? b.definition = none) (id : BindingId) :
    (r.push b new).definition? id = if id = r.slots.size then some b.definition else r.definition? id :=
  defined_push r.slots b id

theorem definition?_putRef (r : Registry) (node : NodeRef) (ids : List BindingId) (id : BindingId) :
    (r.putRef node ids).definition? id = r.definition? id :=
  definition?_modifyAll (Binding.definition_addRef node) ids _ id

theorem definition?_register_of_some (b : Binding) (here : r.definition? id = some d) :
    (r.register b).2.definition? id = some d := by
  obtain ⟨i, _, -, -, eq⟩ | ⟨new, eq⟩ := r.register_cases b
  · rw [eq, definition?_modify, here]
  · rw [eq, definition?_push, if_neg (Nat.ne_of_lt (lt_size_of_defined here)), here]

theorem definition?_register_self (r : Registry) (b : Binding) :
    (r.register b).2.definition? (r.register b).1 = some b.definition := by
  obtain ⟨i, old, live, same, eq⟩ | ⟨new, eq⟩ := r.register_cases b
  · rw [eq, definition?_modify]
    exact definition?_eq_some.mpr ⟨old, live, same⟩
  · rw [eq, definition?_push, if_pos rfl]

theorem eq_or_definition?_of_register {b : Binding} (here : (r.register b).2.definition? id = some d) :
    d = b.definition ∨ r.definition? id = some d := by
  obtain ⟨i, _, -, -, eq⟩ | ⟨new, eq⟩ := r.register_cases b
  · rw [eq, definition?_modify] at here
    exact .inr here
  · rw [eq, definition?_push] at here
    split at here
    · exact .inl (Option.some.inj here).symm
    · exact .inr here

theorem definition?_removeFile (r : Registry) (file : Path) (id : BindingId) :
    (r.removeFile file).2.definition? id = (r.definition? id).filter (fun d => !d.node.file.same file) := by
  unfold definition?
  rw [get?_removeFile, Option.map_map, Option.filter_map]
  rfl

end Registry

end RubyInfer
