import RubyInfer.Proofs.Session.Alongside

/-!
# What a session shows

A `View` is what can be seen of a session: numbers of trees, bindings, scopes, functions and classes
do not show. Sessions alike show the same, provided that their types do.
-/

namespace RubyInfer

namespace Ty

variable {o : Offsets} {V : Vocabulary} {names names' : Names}

mutual
theorem display_shift (functions : ∀ id, V.function id →
    names'.function (id + o.functions) = names.function id)
    (classes : ∀ id, V.classObj id → names'.classObj (id + o.classes) = names.classObj id)
    (modules : ∀ id, V.moduleObj id → names'.moduleObj (id + o.modules) = names.moduleObj id) :
    ∀ a : Ty, a.Within V → (a.shift o).display names' = a.display names
  | .list elem _, within => by
      rw [shift, display, display, display_shift functions classes modules elem within.1]
  | .dict key value, within => by
      rw [shift, display, display, display_shift functions classes modules key within.1,
        display_shift functions classes modules value within.2]
  | .function id, within => by rw [shift, display, display, functions id within]
  | .classObj id, within => by rw [shift, display, display, classes id within]
  | .inst id, within => by rw [shift, display, display, classes id within]
  | .moduleObj id, within => by rw [shift, display, display, modules id within]
  | .union ms, within => by rw [shift, display, display, displayAll_shift functions classes modules ms within]
  | .unknown, _ | .nil, _ | .bool, _ | .num, _ | .str _, _ | .symbol _, _ => rfl

theorem displayAll_shift (functions : ∀ id, V.function id →
    names'.function (id + o.functions) = names.function id)
    (classes : ∀ id, V.classObj id → names'.classObj (id + o.classes) = names.classObj id)
    (modules : ∀ id, V.moduleObj id → names'.moduleObj (id + o.modules) = names.moduleObj id) :
    ∀ ts : List Ty, AllWithin V ts → displayAll names' (shiftAll o ts) = displayAll names ts
  | [], _ => rfl
  | t :: ts, within => by
      rw [shiftAll, displayAll, displayAll, display_shift functions classes modules t within.1,
        displayAll_shift functions classes modules ts within.2]
end

end Ty

structure Shown where
  qname : String
  kind : BindingKind
  file : Path
  span : Span
  type : String
  refs : List (Path × Span)
deriving DecidableEq

structure View where
  bindings : List Shown
  references : List (Path × List (Span × List String))
  diagnostics : List Diagnostic
deriving DecidableEq

namespace Session

def shown (s : Session) (b : Binding) : Shown where
  qname := b.qname
  kind := b.kind
  file := b.file
  span := s.span b.node
  type := b.ty.display s.names
  refs := b.refs.map fun node => (node.file, s.span node)

def qnames (s : Session) (ids : List BindingId) : List String :=
  ids.filterMap fun id => (s.registry.get? id).map Binding.qname

def view (s : Session) : View where
  bindings := s.registry.all.map fun e => s.shown e.2
  references := s.registry.references.entries.map fun e => (e.1, e.2.map fun x => (s.span x.1, s.qnames x.2))
  diagnostics := s.diagnostics.all

namespace Twin

variable {P : Pairing} {st : Stage} {s s' : Session}

theorem qnames_eq (twin : Twin P st s s') (ids : List BindingId) :
    s'.qnames (ids.map P.binding) = s.qnames ids := by
  unfold qnames
  rw [List.filterMap_map]
  apply List.filterMap_congr
  intro id _
  have slot := twin.registry.get? id
  simp only [Function.comp_apply]
  generalize s.registry.get? id = x, s'.registry.get? (P.binding id) = y at slot
  cases slot with
  | none => rfl
  | some related => simp [related.qname]

theorem map_eq_of_forall₂ {α β γ : Type} {rel : α → β → Prop} {f : α → γ} {g : β → γ} {xs : List α}
    {ys : List β}
    (related : List.Forall₂ rel xs ys) (each : ∀ a b, rel a b → g b = f a) : ys.map g = xs.map f := by
  induction related with
  | nil => rfl
  | cons first _ ih => rw [List.map_cons, List.map_cons, each _ _ first, ih]

theorem view_eq (twin : Twin P st s s')
    (typed : ∀ ty ty', P.TyTwin ty ty' → ty'.display s'.names = ty.display s.names) :
    s'.view = s.view := by
  have place (n n' : NodeRef) (node : NodeRef.Twin P.toFrame st.links n n') :
      (n'.file, s'.span n') = (n.file, s.span n) := by
    rw [node.file, twin.span_eq node]
  have binding (b b' : Binding) (related : Binding.Twin P.toFrame st.links b b') :
      s'.shown b' = s.shown b := by
    unfold Session.shown Binding.file
    rw [related.qname, related.kind, related.node.file, twin.span_eq related.node,
      typed _ _ related.ty, map_eq_of_forall₂ related.refs place]
  unfold view
  congr 1
  · exact map_eq_of_forall₂ twin.registry.all fun e e' entry => binding e.2 e'.2 entry.2
  · refine map_eq_of_forall₂ twin.registry.references fun e e' index => ?_
    rw [index.file, map_eq_of_forall₂ index.nodes fun x x' entry => ?_]
    rw [twin.span_eq entry.1, entry.2, twin.qnames_eq]
  · rw [twin.diagnostics]

theorem names_eq (twin : Twin P st s s') (still : P.offsets = {})
    (spoken : ∀ id, P.vocabulary.function id) : s'.names = s.names := by
  unfold names
  congr 1
  · funext id
    have entry := twin.functions.get id (spoken id)
    rw [still] at entry
    generalize s.functions[id]? = x, s'.functions[id + 0]? = y at entry
    cases entry with
    | none => rfl
    | some related => exact related.name
  · funext id
    have entry := twin.classes.get id trivial
    rw [still] at entry
    generalize s.classes[id]? = x, s'.classes[id + 0]? = y at entry
    cases entry with
    | none => rfl
    | some related => exact related.qname
  · funext id
    have entry := twin.modules.get id trivial
    rw [still] at entry
    generalize s.modules[id]? = x, s'.modules[id + 0]? = y at entry
    cases entry with
    | none => rfl
    | some related => exact related.qname

theorem summary_eq (twin : Twin P st s s') (still : P.offsets.calls = 0) : s'.summary = s.summary := by
  have all := twin.registry.all
  have references := twin.registry.references
  have definitions : s'.registry.size = s.registry.size := all.length_eq.symm
  have crossReferences : s'.registry.crossReferences = s.registry.crossReferences := by
    unfold Registry.crossReferences
    rw [map_eq_of_forall₂ all fun _ _ entry => entry.2.refs.length_eq.symm]
  have referencingNodes : s'.registry.referencingNodes = s.registry.referencingNodes := by
    unfold Registry.referencingNodes PathMap.values
    rw [List.map_map, List.map_map]
    exact congrArg _ (map_eq_of_forall₂ references fun _ _ entry => entry.nodes.length_eq.symm)
  unfold summary
  rw [twin.loaded, twin.failed, twin.diagnostics, definitions, crossReferences, referencingNodes,
    twin.resolved.length_eq,
    twin.unresolved.length_eq, twin.calls, still, Nat.add_zero]

end Twin

end Session

end RubyInfer
