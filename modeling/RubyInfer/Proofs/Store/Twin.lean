import Mathlib.Data.List.Forall2
import RubyInfer.Proofs.Store.Registry
import RubyInfer.Proofs.Store.Scopes
import RubyInfer.Proofs.Ty.Twin

/-!
# Bindings and scopes of two sessions

Trees of two sessions stand for each other by `links`, and all bindings and scopes of the second
session are ahead by fixed numbers. The second session may have more: bindings that are gone, and
scopes that nothing of the first one leads to.
-/

namespace RubyInfer

open Relator

/-- What two sessions may have in common: how far the numbers are apart, what types speak of, and
which files nodes come from. -/
structure Frame where
  offsets : Offsets
  vocabulary : Ty.Vocabulary
  source : Path → Prop

abbrev Links := Nat → Nat → Prop

namespace Frame

variable (F : Frame)

abbrev TyTwin : Ty → Ty → Prop := Ty.Twin F.offsets F.vocabulary

def binding (id : Nat) : Nat := id + F.offsets.bindings

def scope (id : Nat) : Nat := if id = Scopes.global then Scopes.global else id + F.offsets.scopes

theorem binding_inj {i j : Nat} : F.binding i = F.binding j ↔ i = j := by
  simp [binding]

theorem binding_injective : Function.Injective F.binding := fun _ _ => F.binding_inj.mp

theorem scope_global : F.scope Scopes.global = Scopes.global := if_pos rfl

theorem scope_inj {i j : Nat} : F.scope i = F.scope j ↔ i = j := by
  unfold scope Scopes.global
  split <;> split <;> omega

theorem scope_of_pos {i : Nat} (inner : 0 < i) : F.scope i = i + F.offsets.scopes :=
  if_neg (Nat.ne_of_gt inner)

variable {F} in
theorem scope_still (still : F.offsets = {}) (i : Nat) : F.scope i = i := by
  unfold scope
  rw [still]
  split
  · rename_i global
    exact global.symm
  · rfl

theorem scope_lt {i j : Nat} (before : i < j) : F.scope i < F.scope j := by
  unfold scope Scopes.global
  split <;> split <;> omega

end Frame

/-! ## Nodes -/

structure NodeRef.Twin (F : Frame) (L : Links) (n n' : NodeRef) : Prop where
  linked : L n.tree n'.tree
  file : n'.file = n.file
  id : n'.id = n.id
  source : F.source n.file

namespace NodeRef.Twin

variable {F : Frame} {L L' : Links} {n n' : NodeRef}

theorem mono (wider : ∀ i j, L i j → L' i j) (twin : Twin F L n n') : Twin F L' n n' :=
  { twin with linked := wider _ _ twin.linked }

theorem sibling (twin : Twin F L n n') (id : NodeId) : Twin F L (n.sibling id) (n'.sibling id) :=
  { twin with id := rfl }

theorem biUnique (unique : BiUnique L) : BiUnique (Twin F L) := by
  constructor
  · intro a b c first second
    cases a
    cases b
    simp only [NodeRef.mk.injEq]
    exact ⟨unique.1 first.linked second.linked, first.file.symm.trans second.file,
      first.id.symm.trans second.id⟩
  · intro a b c first second
    cases b
    cases c
    simp only [NodeRef.mk.injEq]
    exact ⟨unique.2 first.linked second.linked, first.file.trans second.file.symm,
      first.id.trans second.id.symm⟩

theorem eq_iff (unique : BiUnique L) {m m' : NodeRef} (first : Twin F L n n')
    (second : Twin F L m m') : n' = m' ↔ n = m :=
  (rel_eq (biUnique unique) first second).symm

theorem contains_eq (unique : BiUnique L) {ns ns' : List NodeRef}
    (twins : List.Forall₂ (Twin F L) ns ns') (twin : Twin F L n n') :
    ns'.contains n' = ns.contains n := by
  rw [Bool.eq_iff_iff, List.contains_iff_mem, List.contains_iff_mem]
  exact (List.rel_mem (biUnique unique) twin twins).symm

end NodeRef.Twin

/-! ## Bindings -/

structure Binding.Twin (F : Frame) (L : Links) (b b' : Binding) : Prop where
  name : b'.name = b.name
  qname : b'.qname = b.qname
  kind : b'.kind = b.kind
  node : NodeRef.Twin F L b.node b'.node
  body : b'.body = b.body
  ty : F.TyTwin b.ty b'.ty
  refs : List.Forall₂ (NodeRef.Twin F L) b.refs b'.refs

namespace Binding.Twin

variable {F : Frame} {L L' : Links} {b b' c c' : Binding}

theorem mono (wider : ∀ i j, L i j → L' i j) (twin : Twin F L b b') : Twin F L' b b' :=
  { twin with node := twin.node.mono wider, refs := twin.refs.imp fun _ _ => NodeRef.Twin.mono wider }

theorem mergeType (twin : Twin F L b b') {ty ty' : Ty} (typed : F.TyTwin ty ty') :
    Twin F L (b.mergeType ty) (b'.mergeType ty') :=
  { twin with ty := twin.ty.either typed }

theorem refineType (twin : Twin F L b b') {ty ty' : Ty} (typed : F.TyTwin ty ty') :
    Twin F L (b.refineType ty) (b'.refineType ty') :=
  { twin with ty := twin.ty.join typed }

theorem refineAttribute (twin : Twin F L b b') {ty ty' : Ty} (typed : F.TyTwin ty ty') :
    Twin F L (b.refineAttribute ty) (b'.refineAttribute ty') := by
  unfold Binding.refineAttribute
  rw [twin.kind]
  split
  · exact twin.refineType typed
  · exact twin

theorem addRef (unique : BiUnique L) (twin : Twin F L b b') {n n' : NodeRef} (node : NodeRef.Twin F L n n') :
    Twin F L (b.addRef n) (b'.addRef n') := by
  unfold Binding.addRef
  rw [NodeRef.Twin.contains_eq unique twin.refs node]
  split
  · exact twin
  · exact { twin with refs := List.rel_append twin.refs (.cons node .nil) }

theorem definition_eq_iff (unique : BiUnique L) (first : Twin F L b b') (second : Twin F L c c') :
    b'.definition = c'.definition ↔ b.definition = c.definition := by
  unfold Binding.definition
  simp only [Definition.mk.injEq, first.node.eq_iff unique second.node, first.kind, second.kind,
    first.name, second.name]

theorem isUnused_eq (twin : Twin F L b b') : b'.isUnused = b.isUnused := by
  unfold Binding.isUnused
  rw [twin.kind]
  congr 1
  rw [Bool.eq_iff_iff, List.isEmpty_iff_length_eq_zero, List.isEmpty_iff_length_eq_zero, twin.refs.length_eq]

end Binding.Twin

/-! ## Lists of bindings -/

namespace Registry

variable (F : Frame)

theorem addNew_map (ids : List BindingId) (id : BindingId) :
    addNew (ids.map F.binding) (F.binding id) = (addNew ids id).map F.binding := by
  have there : (ids.map F.binding).contains (F.binding id) = ids.contains id := by
    rw [Bool.eq_iff_iff, List.contains_iff_mem, List.contains_iff_mem,
      List.mem_map_of_injective F.binding_injective]
  unfold addNew
  rw [there]
  split <;> simp

theorem foldl_addNew_map (ids out : List BindingId) :
    (ids.map F.binding).foldl addNew (out.map F.binding) = (ids.foldl addNew out).map F.binding := by
  induction ids generalizing out with
  | nil => rfl
  | cons id ids ih => rw [List.map_cons, List.foldl_cons, List.foldl_cons, addNew_map, ih]

end Registry

/-! ## The registry -/

def Frame.EntryTwin (F : Frame) (L : Links) (e e' : NodeRef × List BindingId) : Prop :=
  NodeRef.Twin F L e.1 e'.1 ∧ e'.2 = e.2.map F.binding

structure Frame.IndexTwin (F : Frame) (L : Links) (e e' : Path × List (NodeRef × List BindingId)) : Prop where
  file : e'.1 = e.1
  source : F.source e.1
  nodes : List.Forall₂ (F.EntryTwin L) e.2 e'.2

structure Registry.Twin (F : Frame) (L : Links) (r r' : Registry) : Prop where
  size : r'.slots.size = F.binding r.slots.size
  gone : ∀ i < F.offsets.bindings, r'.get? i = none
  get? : ∀ i, Option.Rel (Binding.Twin F L) (r.get? i) (r'.get? (F.binding i))
  references : List.Forall₂ (F.IndexTwin L) r.references.entries r'.references.entries

namespace Registry.Twin

variable {F : Frame} {L L' : Links} {r r' : Registry} {f f' : Binding → Binding} {n n' : NodeRef}
variable (keeps : ∀ b, (f b).definition = b.definition) (keeps' : ∀ b, (f' b).definition = b.definition)

theorem mono (wider : ∀ i j, L i j → L' i j) (twin : Twin F L r r') : Twin F L' r r' where
  size := twin.size
  gone := twin.gone
  get? i := by
    have slot := twin.get? i
    generalize r.get? i = x, r'.get? (F.binding i) = y at slot
    cases slot with
    | none => exact .none
    | some related => exact .some (related.mono wider)
  references := twin.references.imp fun _ _ index =>
    { index with nodes := index.nodes.imp fun _ _ entry => ⟨entry.1.mono wider, entry.2⟩ }

theorem of_get? (twin : Twin F L r r') {i : Nat} {b' : Binding} (live : r'.get? i = some b') :
    ∃ j b, i = F.binding j ∧ r.get? j = some b ∧ Binding.Twin F L b b' := by
  by_cases old : i < F.offsets.bindings
  · rw [twin.gone i old] at live
    cases live
  · have moved : i = F.binding (i - F.offsets.bindings) := by
      unfold Frame.binding
      omega
    have slot := twin.get? (i - F.offsets.bindings)
    rw [← moved, live] at slot
    generalize here : r.get? (i - F.offsets.bindings) = x at slot
    cases slot with
    | some related => exact ⟨_, _, moved, here, related⟩

theorem get?_of_some (twin : Twin F L r r') {i : BindingId} {b : Binding} (live : r.get? i = some b) :
    ∃ b', r'.get? (F.binding i) = some b' ∧ Binding.Twin F L b b' := by
  have slot := twin.get? i
  rw [live] at slot
  generalize here : r'.get? (F.binding i) = y at slot
  cases slot with
  | some related => exact ⟨_, rfl, related⟩

theorem find?_of_none (unique : BiUnique L) (twin : Twin F L r r') {b b' : Binding}
    (same : Binding.Twin F L b b')
    (new : r.find? b.definition = none) : r'.find? b'.definition = none := by
  refine find?_eq_none_iff.mpr fun i there => ?_
  obtain ⟨old', live, hit⟩ := definition?_eq_some.mp there
  obtain ⟨j, old, -, here, related⟩ := twin.of_get? live
  exact find?_eq_none_iff.mp new j
    (definition?_eq_some.mpr ⟨old, here, (related.definition_eq_iff unique same).mp hit⟩)

theorem find?_of_some (unique : BiUnique L) (twin : Twin F L r r') {b b' : Binding}
    (same : Binding.Twin F L b b') {id : BindingId} (found : r.find? b.definition = some id) :
    r'.find? b'.definition = some (F.binding id) := by
  obtain ⟨old, live, hit⟩ := definition?_eq_some.mp (find?_eq_some_iff.mp found)
  obtain ⟨old', live', related⟩ := twin.get?_of_some live
  exact find?_eq_some_iff.mpr
    (definition?_eq_some.mpr ⟨old', live', (related.definition_eq_iff unique same).mpr hit⟩)

theorem modify (twin : Twin F L r r') (id : BindingId)
    (each : ∀ b b', Binding.Twin F L b b' → Binding.Twin F L (f b) (f' b')) :
    Twin F L (r.modify id f keeps) (r'.modify (F.binding id) f' keeps') where
  size := by simpa using twin.size
  gone i old := by simp [twin.gone i old]
  get? i := by
    have slot := twin.get? i
    rw [get?_modify, get?_modify]
    simp only [F.binding_inj]
    generalize r.get? i = x, r'.get? (F.binding i) = y at slot
    cases slot with
    | none => exact .none
    | some related =>
      by_cases here : id = i
      · simpa [here] using each _ _ related
      · simpa [here] using related
  references := twin.references

theorem modifyAll (twin : Twin F L r r') (ids : List BindingId)
    (each : ∀ b b', Binding.Twin F L b b' → Binding.Twin F L (f b) (f' b')) :
    Twin F L (ids.foldl (fun r id => r.modify id f keeps) r)
      ((ids.map F.binding).foldl (fun r id => r.modify id f' keeps') r') := by
  induction ids generalizing r r' with
  | nil => exact twin
  | cons id ids ih => exact ih (twin.modify keeps keeps' id each)

theorem push (twin : Twin F L r r') {b b' : Binding} (same : Binding.Twin F L b b')
    (new : r.find? b.definition = none) (new' : r'.find? b'.definition = none) :
    Twin F L (r.push b new) (r'.push b' new') where
  size := by
    simp [twin.size, Frame.binding]
    omega
  gone i old := by
    have before : i < r'.slots.size := by
      rw [twin.size]
      exact Nat.lt_of_lt_of_le old (Nat.le_add_left ..)
    rw [get?_push, if_neg (Nat.ne_of_lt before), twin.gone i old]
  get? i := by
    rw [get?_push, get?_push, twin.size]
    simp only [F.binding_inj]
    split
    · exact .some same
    · exact twin.get? i
  references := twin.references

theorem register (unique : BiUnique L) (twin : Twin F L r r') {b b' : Binding}
    (same : Binding.Twin F L b b') :
    (r'.register b').1 = F.binding (r.register b).1 ∧ Twin F L (r.register b).2 (r'.register b').2 := by
  obtain new | ⟨id, found⟩ := (r.find? b.definition).eq_none_or_eq_some
  · have new' := twin.find?_of_none unique same new
    rw [register_of_none new, register_of_none new']
    exact ⟨twin.size, twin.push same new new'⟩
  · rw [register_of_some found, register_of_some (twin.find?_of_some unique same found)]
    have each := fun c c' (related : Binding.Twin F L c c') => related.mergeType same.ty
    exact ⟨rfl, twin.modify (Binding.definition_mergeType b.ty) (Binding.definition_mergeType b'.ty) id each⟩

/-! ### References -/

theorem refer (unique : BiUnique L) (node : NodeRef.Twin F L n n') (ids : List BindingId)
    {index index' : List (NodeRef × List BindingId)}
    (twins : List.Forall₂ (F.EntryTwin L) index index') :
    List.Forall₂ (F.EntryTwin L) (Registry.refer n ids index)
      (Registry.refer n' (ids.map F.binding) index') := by
  have there : index'.any (fun e => e.1 = n') = index.any (fun e => e.1 = n) := by
    induction twins with
    | nil => rfl
    | cons first _ ih => simp only [List.any_cons, ih, first.1.eq_iff unique node]
  unfold Registry.refer
  rw [there]
  split
  · refine List.rel_map (fun e e' entry => ?_) twins
    simp only [entry.1.eq_iff unique node]
    split
    · exact ⟨entry.1, by rw [entry.2, foldl_addNew_map]⟩
    · exact entry
  · exact List.rel_append twins (.cons ⟨node, foldl_addNew_map F ids []⟩ .nil)

theorem references_update (unique : BiUnique L) (node : NodeRef.Twin F L n n') (ids : List BindingId)
    {m m' : PathMap (List (NodeRef × List BindingId))}
    (twins : List.Forall₂ (F.IndexTwin L) m.entries m'.entries) :
    List.Forall₂ (F.IndexTwin L) (m.update n.file [] (Registry.refer n ids)).entries
      (m'.update n'.file [] (Registry.refer n' (ids.map F.binding))).entries := by
  rw [node.file]
  have there : m'.contains n.file = m.contains n.file := by
    unfold PathMap.contains
    generalize m.entries = es, m'.entries = es' at twins
    induction twins with
    | nil => rfl
    | cons first _ ih => simp only [List.any_cons, ih, first.file]
  unfold PathMap.update
  rw [there]
  split
  · refine List.rel_map (fun e e' index => ?_) twins
    rw [index.file]
    split
    · exact ⟨rfl, index.source, refer unique node ids index.nodes⟩
    · exact index
  · exact List.rel_append twins (.cons ⟨rfl, node.source, refer unique node ids .nil⟩ .nil)

theorem putRef (unique : BiUnique L) (twin : Twin F L r r') (node : NodeRef.Twin F L n n')
    (ids : List BindingId) :
    Twin F L (r.putRef n ids) (r'.putRef n' (ids.map F.binding)) := by
  unfold Registry.putRef
  apply modifyAll
  · exact { twin with references := references_update unique node ids twin.references }
  · exact fun _ _ related => related.addRef unique node

end Registry.Twin

/-! ## Scopes -/

structure Scope.Twin (F : Frame) (s s' : Scope) : Prop where
  kind : s'.kind = s.kind
  parent : s'.parent = s.parent.map F.scope
  path : s'.path = s.path
  lookup : ∀ key, (s'.table.lookup key).getD [] = ((s.table.lookup key).getD []).map F.binding

structure Scopes.Twin (F : Frame) (s s' : Scopes) : Prop where
  size : s'.size = F.scope s.size
  global : 0 < s.size
  get (i : Nat) : Scope.Twin F (s.get i) (s'.get (F.scope i))
  parents (i p : Nat) : (s.get i).parent = some p → p < i

namespace Scope.Twin

variable {F : Frame} {s s' : Scope}

theorem local?_eq (twin : Twin F s s') (name : String) (tier : Tier) :
    s'.local? name tier = (s.local? name tier).map (·.map F.binding) := by
  rw [Scope.local?_eq, Scope.local?_eq, twin.lookup, List.isEmpty_map]
  split <;> rfl

theorem add (twin : Twin F s s') (key : Key) (id : BindingId) :
    Twin F (s.add key id) (s'.add key (F.binding id)) := by
  rw [s.add_eq, s'.add_eq]
  refine { twin with lookup := fun k => ?_ }
  show ((s'.add key (F.binding id)).table.lookup k).getD [] =
      (((s.add key id).table.lookup k).getD []).map F.binding
  rw [Scope.lookup_add, Scope.lookup_add, twin.lookup]
  split
  · exact Registry.addNew_map F _ id
  · exact twin.lookup k

end Scope.Twin

namespace Scopes.Twin

variable {F : Frame} {s s' : Scopes}

theorem local?_eq (twin : Twin F s s') (i : ScopeId) (name : String) (tier : Tier) :
    s'.local? (F.scope i) name tier = (s.local? i name tier).map (·.map F.binding) :=
  (twin.get i).local?_eq name tier

theorem chainWithin_eq (twin : Twin F s s') (bound more : Nat) (i : Nat) (enough : i < bound)
    (plenty : F.scope i < more) :
    s'.chainWithin more (F.scope i) = (s.chainWithin bound i).map F.scope := by
  induction bound generalizing i more with
  | zero => exact absurd enough (Nat.not_lt_zero _)
  | succ bound ih =>
    obtain ⟨more, rfl⟩ : ∃ n, more = n + 1 := ⟨more - 1, by omega⟩
    unfold Scopes.chainWithin
    rw [(twin.get i).parent]
    cases around : (s.get i).parent with
    | none => rfl
    | some p =>
      have outward := twin.parents i p around
      have outward' := F.scope_lt outward
      simp only [Option.map_some, List.map_cons]
      rw [ih more p (by omega) (by omega)]

theorem chain_eq (twin : Twin F s s') (i : ScopeId) : s'.chain (F.scope i) = (s.chain i).map F.scope :=
  twin.chainWithin_eq _ _ i (Nat.lt_succ_self _) (Nat.lt_succ_self _)

theorem lookup?_eq (twin : Twin F s s') (i : ScopeId) (name : String) (tier : Tier) :
    s'.lookup? (F.scope i) name tier = (s.lookup? i name tier).map (·.map F.binding) := by
  unfold Scopes.lookup?
  rw [twin.chain_eq]
  induction s.chain i with
  | nil => rfl
  | cons j rest ih =>
    rw [List.map_cons, List.findSome?_cons, List.findSome?_cons, twin.local?_eq]
    cases s.local? j name tier with
    | none => exact ih
    | some ids => rfl

theorem qualify_eq (twin : Twin F s s') (i : ScopeId) (name : String) :
    s'.qualify (F.scope i) name = s.qualify i name := by
  unfold Scopes.qualify
  rw [(twin.get i).path]

theorem enter (twin : Twin F s s') (i : ScopeId) (name : String) (tier : Tier) (id : BindingId) :
    Twin F (s.enter i name tier id) (s'.enter (F.scope i) name tier (F.binding id)) := by
  have inRange (j : Nat) : F.scope j < s'.size ↔ j < s.size := by
    rw [twin.size]
    constructor
    · intro lt
      by_contra out
      obtain same | before := Nat.eq_or_lt_of_le (Nat.le_of_not_lt out)
      · rw [same] at lt
        omega
      · have := F.scope_lt before
        omega
    · exact F.scope_lt
  constructor
  · rw [size_enter, size_enter, twin.size]
  · rw [size_enter]
    exact twin.global
  · intro j
    rw [get_enter, get_enter]
    simp only [F.scope_inj, inRange]
    split
    · exact (twin.get j).add _ _
    · exact twin.get j
  · intro j p around
    rw [get_enter] at around
    split at around
    · rw [Scope.add_eq] at around
      exact twin.parents j p around
    · exact twin.parents j p around

theorem push (twin : Twin F s s') (kind : ScopeKind) {parent : Nat} (there : parent < s.size)
    (path : String) :
    (s'.push kind (some (F.scope parent)) path).1 = F.scope (s.push kind (some parent) path).1 ∧
      Twin F (s.push kind (some parent) path).2 (s'.push kind (some (F.scope parent)) path).2 := by
  have next : F.scope (s.size + 1) = F.scope s.size + 1 := by
    rw [F.scope_of_pos (Nat.succ_pos _), F.scope_of_pos twin.global]
    omega
  refine ⟨twin.size, ?_⟩
  constructor
  · rw [size_push, size_push, twin.size, next]
  · rw [size_push]
    exact Nat.succ_pos _
  · intro i
    rw [get_push, get_push, twin.size]
    simp only [F.scope_inj]
    split
    · exact ⟨rfl, rfl, rfl, fun _ => rfl⟩
    · exact twin.get i
  · intro i p around
    rw [get_push] at around
    split at around
    · rename_i new
      cases around
      exact new ▸ there
    · exact twin.parents i p around

end Scopes.Twin

end RubyInfer
