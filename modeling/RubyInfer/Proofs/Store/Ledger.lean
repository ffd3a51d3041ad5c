import Mathlib.Data.List.Nodup
import RubyInfer.Proofs.Store.Definition
import RubyInfer.Proofs.Store.Index

/-!
# Both directions of the references agree

A registry keeps its references twice: each binding has the nodes that refer to it, and the index
has for each node the bindings that it refers to. `Mirrored` says that one is the other read
backwards. A `Ledger` is a registry together with the numbers that it has given out; operations on
it keep the registry mirrored as long as references are made to such numbers (`Sound.step`), and
`inOrder_of_leads` says what follows for every sequence of operations.
-/

namespace RubyInfer

theorem Binding.nodup_refs_addRef {b : Binding} (once : b.refs.Nodup) (node : NodeRef) :
    (b.addRef node).refs.Nodup := by
  unfold addRef
  split
  · exact once
  · rename_i new
    exact nodup_append_new once (by simpa using new)

namespace Registry

variable {r : Registry} {ids : List BindingId} {i : BindingId} {n : NodeRef}

/-! ## What a node refers to -/

def Lists (index : List (NodeRef × List BindingId)) (n : NodeRef) (i : BindingId) : Prop :=
  ∃ ids, (n, ids) ∈ index ∧ i ∈ ids

def Refers (r : Registry) (n : NodeRef) (i : BindingId) : Prop := Lists ((r.referencesIn? n.file).getD []) n i

theorem lists_refer {node n : NodeRef} {index : List (NodeRef × List BindingId)} :
    Lists (refer node ids index) n i ↔ Lists index n i ∨ n = node ∧ i ∈ ids := by
  constructor
  · rintro ⟨found, mem, here⟩
    obtain old | new | ⟨old, there, new⟩ := mem_refer mem
    · exact .inl ⟨found, old, here⟩
    · cases new
      exact .inr ⟨rfl, by simpa [mem_foldl_addNew] using here⟩
    · cases new
      exact (mem_foldl_addNew.mp here).imp (fun before => ⟨old, there, before⟩) fun added => ⟨rfl, added⟩
  · unfold refer
    rintro (⟨old, there, here⟩ | ⟨rfl, added⟩)
    · split
      · by_cases same : n = node
        · exact ⟨_, List.mem_map.mpr ⟨_, there, if_pos same⟩, mem_foldl_addNew.mpr (.inl here)⟩
        · exact ⟨_, List.mem_map.mpr ⟨_, there, if_neg same⟩, here⟩
      · exact ⟨old, List.mem_append_left _ there, here⟩
    · split
      · rename_i present
        obtain ⟨e, there, same⟩ := List.any_eq_true.mp present
        rw [decide_eq_true_eq] at same
        subst same
        exact ⟨_, List.mem_map.mpr ⟨_, there, if_pos rfl⟩, mem_foldl_addNew.mpr (.inr added)⟩
      · exact ⟨_, List.mem_append_right _ List.mem_cons_self, mem_foldl_addNew.mpr (.inr added)⟩

theorem refers_putRef {node n : NodeRef} :
    (r.putRef node ids).Refers n i ↔ r.Refers n i ∨ n = node ∧ i ∈ ids := by
  unfold Refers referencesIn?
  rw [references_putRef, PathMap.get?_update]
  split
  · exact lists_refer
  · rename_i other
    refine ⟨.inl, fun h => h.resolve_right fun ⟨same, _⟩ => other ?_⟩
    rw [same, Path.same_refl]

theorem refers_removeFile {file : Path} :
    (r.removeFile file).2.Refers n i ↔ r.Refers n i ∧ n.file.same file = false ∧ i ∉ r.idsIn file := by
  have left : (r.removeFile file).2.referencesIn? n.file =
      (if file.same n.file then none else r.referencesIn? n.file).map
        (List.map fun e => (e.1, e.2.filter fun id => !(r.idsIn file).contains id)) := by
    show (((r.references.erase file).mapValues _).get? n.file) = _
    rw [PathMap.get?_mapValues, PathMap.get?_erase]
    rfl
  unfold Refers
  rw [left, Path.same_comm (p := n.file)]
  cases file.same n.file with
  | true => simp [Lists]
  | false =>
    cases r.referencesIn? n.file with
    | none => simp [Lists]
    | some index =>
      simp only [Bool.false_eq_true, if_false, Option.map_some, Option.getD_some, Lists,
        List.mem_map, Prod.mk.injEq]
      constructor
      · rintro ⟨_, ⟨e, there, rfl, rfl⟩, here⟩
        simp only [List.mem_filter, Bool.not_eq_true', List.contains_eq_mem, decide_eq_false_iff_not] at here
        exact ⟨⟨e.2, there, here.1⟩, trivial, here.2⟩
      · rintro ⟨⟨ids, there, here⟩, -, kept⟩
        exact ⟨_, ⟨_, there, rfl, rfl⟩, List.mem_filter.mpr ⟨here, by simpa using kept⟩⟩

theorem Indexed.congr {r' : Registry} (indexed : r.Indexed) (same : r'.references = r.references) :
    r'.Indexed :=
  ⟨same ▸ indexed.paths, same ▸ indexed.filed⟩

/-! ## Keeping both directions -/

structure Mirrored (r : Registry) : Prop where
  indexed : r.Indexed
  once : ∀ {i : BindingId} {b : Binding}, r.get? i = some b → b.refs.Nodup
  both : ∀ {i : BindingId} {b : Binding}, r.get? i = some b → ∀ n, n ∈ b.refs ↔ r.Refers n i
  known : ∀ {n : NodeRef} {i : BindingId}, r.Refers n i → i < r.slots.size

theorem mirrored_empty : Mirrored .empty where
  indexed := ⟨List.Pairwise.nil, by simp [empty]⟩
  once here := by simp at here
  both here := by simp at here
  known := by rintro n i ⟨ids, mem, -⟩; simp [referencesIn?, PathMap.get?, empty] at mem

theorem Mirrored.modify (mirrored : r.Mirrored) (i : BindingId) {f : Binding → Binding}
    (same : ∀ b, (f b).definition = b.definition) (refs : ∀ b, (f b).refs = b.refs) :
    (r.modify i f same).Mirrored := by
  have before {j : BindingId} {b : Binding} (live : (r.modify i f same).get? j = some b) :
      ∃ old, r.get? j = some old ∧ b.refs = old.refs := by
    rw [get?_modify] at live
    obtain ⟨old, there, rfl⟩ := Option.map_eq_some_iff.mp live
    refine ⟨old, there, ?_⟩
    split
    · exact refs old
    · rfl
  refine ⟨mirrored.indexed.congr rfl, fun live => ?_, fun live n => ?_, ?_⟩
  · obtain ⟨old, there, refs⟩ := before live
    rw [refs]
    exact mirrored.once there
  · obtain ⟨old, there, refs⟩ := before live
    rw [refs]
    exact mirrored.both there n
  · rw [size_modify]
    exact mirrored.known

theorem Mirrored.push (mirrored : r.Mirrored) {b : Binding} (new : r.find? b.definition = none)
    (bare : b.refs = []) :
    (r.push b new).Mirrored := by
  have cases {i : BindingId} {x : Binding} (live : (r.push b new).get? i = some x) :
      i = r.slots.size ∧ x = b ∨ r.get? i = some x := by
    rw [get?_push] at live
    split at live
    · cases live
      exact .inl ⟨‹_›, rfl⟩
    · exact .inr live
  refine ⟨mirrored.indexed.congr rfl, fun live => ?_, fun live n => ?_, fun refers => ?_⟩
  · obtain ⟨-, rfl⟩ | old := cases live
    · simp [bare]
    · exact mirrored.once old
  · obtain ⟨rfl, rfl⟩ | old := cases live
    · rw [bare]
      exact ⟨fun mem => absurd mem List.not_mem_nil, fun refers =>
        absurd (mirrored.known refers) (Nat.lt_irrefl _)⟩
    · exact mirrored.both old n
  · rw [size_push]
    exact Nat.lt_succ_of_lt (mirrored.known refers)

theorem Mirrored.register (mirrored : r.Mirrored) {b : Binding} (bare : b.refs = []) :
    (r.register b).2.Mirrored := by
  obtain ⟨id, old, -, -, same⟩ | ⟨new, pushed⟩ := r.register_cases b
  · rw [same]
    exact mirrored.modify id (Binding.definition_mergeType b.ty) fun _ => rfl
  · rw [pushed]
    exact mirrored.push new bare

theorem Mirrored.putRef (mirrored : r.Mirrored) (node : NodeRef) (given : ∀ id ∈ ids, id < r.slots.size) :
    (r.putRef node ids).Mirrored := by
  have before {i : BindingId} {b : Binding} (live : (r.putRef node ids).get? i = some b) :
      ∃ old, r.get? i = some old ∧ b = if i ∈ ids then old.addRef node else old := by
    rw [get?_putRef] at live
    obtain ⟨old, there, same⟩ := Option.map_eq_some_iff.mp live
    exact ⟨old, there, same.symm⟩
  refine ⟨mirrored.indexed.putRef node ids, fun live => ?_, fun live n => ?_, fun refers => ?_⟩
  · obtain ⟨old, there, rfl⟩ := before live
    split
    · exact Binding.nodup_refs_addRef (mirrored.once there) node
    · exact mirrored.once there
  · obtain ⟨old, there, rfl⟩ := before live
    rw [refers_putRef, ← mirrored.both there]
    split
    · rename_i referred
      simp [Binding.mem_refs_addRef, referred]
    · rename_i other
      simp [other]
  · rw [size_putRef]
    obtain old | ⟨-, new⟩ := refers_putRef.mp refers
    · exact mirrored.known old
    · exact given _ new

theorem size_removeFile (r : Registry) (file : Path) : (r.removeFile file).2.slots.size = r.slots.size := by
  simp [Registry.removeFile, slotsWithout]

theorem Mirrored.removeFile (mirrored : r.Mirrored) (file : Path) : (r.removeFile file).2.Mirrored := by
  have before {i : BindingId} {b : Binding} (live : (r.removeFile file).2.get? i = some b) :
      ∃ old, r.get? i = some old ∧ isIn file old = false ∧ b = withoutRefs file old := by
    rw [get?_removeFile] at live
    obtain ⟨old, there, rfl⟩ := Option.map_eq_some_iff.mp live
    obtain ⟨there, kept⟩ := Option.filter_eq_some_iff.mp there
    exact ⟨old, there, by simpa using kept, rfl⟩
  refine ⟨mirrored.indexed.removeFile file, fun live => ?_, fun {i _} live n => ?_, fun refers => ?_⟩
  · obtain ⟨old, there, -, rfl⟩ := before live
    exact (mirrored.once there).filter _
  · obtain ⟨old, there, kept, rfl⟩ := before live
    have stays : ¬ (∃ b, r.get? i = some b ∧ isIn file b = true) := by
      rintro ⟨b, live, gone⟩
      cases there.symm.trans live
      rw [kept] at gone
      cases gone
    rw [refers_removeFile, ← mirrored.both there, mem_idsIn]
    simp [withoutRefs, stays]
  · rw [size_removeFile]
    exact mirrored.known (refers_removeFile.mp refers).1

/-! ## Counting references -/

def rows (r : Registry) : List (NodeRef × List BindingId) := r.references.entries.flatMap Prod.snd

def links (r : Registry) : List (NodeRef × BindingId) :=
  r.rows.flatMap fun e => (e.2.filter fun id => (r.get? id).isSome).map fun id => (e.1, id)

theorem Indexed.mem_rows (indexed : r.Indexed) :
    (n, ids) ∈ r.rows ↔ (n, ids) ∈ (r.referencesIn? n.file).getD [] := by
  unfold rows
  rw [List.mem_flatMap]
  constructor
  · rintro ⟨entry, mem, here⟩
    have own := (indexed.filed entry mem).own _ here
    rw [Path.same_comm] at own
    have found : r.referencesIn? n.file = some entry.2 := indexed.paths.get?_of_mem mem own
    rw [found]
    exact here
  · intro here
    cases found : r.referencesIn? n.file with
    | none => simp [found] at here
    | some index =>
      rw [found] at here
      obtain ⟨entry, first, rfl⟩ := Option.map_eq_some_iff.mp found
      exact ⟨entry, List.mem_of_find?_eq_some first, here⟩

theorem Indexed.mem_links (indexed : r.Indexed) :
    (n, i) ∈ r.links ↔ r.Refers n i ∧ (r.get? i).isSome = true := by
  unfold links
  simp only [List.mem_flatMap, List.mem_map, List.mem_filter, Prod.mk.injEq]
  constructor
  · rintro ⟨⟨_, ids⟩, mem, _, ⟨here, live⟩, rfl, rfl⟩
    exact ⟨⟨ids, indexed.mem_rows.mp mem, here⟩, live⟩
  · rintro ⟨⟨ids, mem, here⟩, live⟩
    exact ⟨(n, ids), indexed.mem_rows.mpr mem, i, ⟨here, live⟩, rfl, rfl⟩

theorem Indexed.nodup_links (indexed : r.Indexed) : r.links.Nodup := by
  have nodes : r.rows.Pairwise (fun a b => a.1 ≠ b.1) := by
    have distinct := indexed.nodup_keys
    unfold keys at distinct
    rw [← List.map_flatMap] at distinct
    exact List.pairwise_map.mp distinct
  refine List.pairwise_flatMap.mpr ⟨fun e mem => ?_, nodes.imp fun {a b} apart x inA y inB same => ?_⟩
  · obtain ⟨entry, there, here⟩ := List.mem_flatMap.mp mem
    have list := ((indexed.filed entry there).lists e here).filter fun id => (r.get? id).isSome
    exact list.map fun _ _ same => (Prod.mk.inj same).2
  · obtain ⟨_, -, rfl⟩ := List.mem_map.mp inA
    obtain ⟨_, -, rfl⟩ := List.mem_map.mp inB
    exact apart (Prod.mk.inj same).1

theorem Mirrored.crossReferences_eq (mirrored : r.Mirrored) : r.crossReferences = r.links.length := by
  let backward : List (NodeRef × BindingId) := r.all.flatMap fun e => e.2.refs.map fun n => (n, e.1)
  have count : r.crossReferences = backward.length := by
    unfold crossReferences backward
    rw [List.length_flatMap]
    simp [List.sum]
  have distinct : backward.Nodup := by
    have numbers : r.all.Pairwise (fun a b => a.1 ≠ b.1) := by
      refine List.Pairwise.filterMap _ (fun i j apart x hx y hy => ?_) (List.nodup_range (n := r.slots.size))
      simp only [Option.map_eq_some_iff] at hx hy
      obtain ⟨_, -, rfl⟩ := hx
      obtain ⟨_, -, rfl⟩ := hy
      exact apart
    refine List.pairwise_flatMap.mpr ⟨fun e mem => ?_, numbers.imp fun {a b} apart x inA y inB same => ?_⟩
    · exact (mirrored.once (mem_all.mp mem)).map fun _ _ same => (Prod.mk.inj same).1
    · obtain ⟨_, -, rfl⟩ := List.mem_map.mp inA
      obtain ⟨_, -, rfl⟩ := List.mem_map.mp inB
      exact apart (Prod.mk.inj same).2
  have same : ∀ link, link ∈ backward ↔ link ∈ r.links := by
    rintro ⟨n, i⟩
    rw [mirrored.indexed.mem_links, Option.isSome_iff_exists]
    simp only [backward, List.mem_flatMap, List.mem_map, Prod.mk.injEq]
    constructor
    · rintro ⟨⟨_, b⟩, mem, _, here, rfl, rfl⟩
      have live := mem_all.mp mem
      exact ⟨(mirrored.both live _).mp here, b, live⟩
    · rintro ⟨refers, b, live⟩
      exact ⟨(i, b), mem_all.mpr live, n, (mirrored.both live n).mpr refers, rfl, rfl⟩
  rw [count]
  exact ((List.perm_ext_iff_of_nodup distinct mirrored.indexed.nodup_links).mpr same).length_eq

end Registry

/-! ## Sequences of operations -/

structure Ledger where
  registry : Registry := .empty
  given : List BindingId := []

namespace Ledger

open Registry

inductive Op
  | register (name qname : String) (kind : BindingKind) (node : NodeRef) (body : Span) (ty : Ty)
  | putRef (node : NodeRef) (ids : List BindingId)
  | mergeType (id : BindingId) (ty : Ty)
  | refineType (id : BindingId) (ty : Ty)
  | removeFile (file : Path)

def step (l : Ledger) : Op → Ledger
  | .register name qname kind node body ty =>
    let (id, registry) := l.registry.register { name, qname, kind, node, body, ty }
    ⟨registry, id :: l.given⟩
  | .putRef node ids => { l with registry := l.registry.putRef node ids }
  | .mergeType id ty =>
    { l with registry := l.registry.modify id (·.mergeType ty) (Binding.definition_mergeType ty) }
  | .refineType id ty =>
    { l with registry := l.registry.modify id (·.refineType ty) (Binding.definition_refineType ty) }
  | .removeFile file => { l with registry := (l.registry.removeFile file).2 }

def Allows (l : Ledger) : Op → Prop
  | .putRef _ ids => ∀ id ∈ ids, id ∈ l.given
  | _ => True

instance (l : Ledger) : (op : Op) → Decidable (l.Allows op)
  | .putRef _ ids => inferInstanceAs (Decidable (∀ id ∈ ids, id ∈ l.given))
  | .register .. | .mergeType .. | .refineType .. | .removeFile .. => inferInstanceAs (Decidable True)

inductive Leads (l : Ledger) : Ledger → Prop
  | here : Leads l l
  | step {m : Ledger} (op : Op) (before : Leads l m) (allowed : m.Allows op) : Leads l (m.step op)

variable {l m : Ledger}

structure Sound (l : Ledger) : Prop where
  mirrored : l.registry.Mirrored
  given : ∀ id, id ∈ l.given ↔ id < l.registry.slots.size

theorem Sound.step (sound : l.Sound) (op : Op) (allowed : l.Allows op) : (l.step op).Sound := by
  cases op with
  | register name qname kind node body ty =>
    refine ⟨sound.mirrored.register rfl, fun id => ?_⟩
    obtain ⟨i, old, live, -, same⟩ | ⟨new, pushed⟩ :=
      l.registry.register_cases { name, qname, kind, node, body, ty }
    · have inRange := lt_size_of_get? live
      simp only [Ledger.step, same, List.mem_cons, sound.given, size_modify]
      exact ⟨fun h => h.elim (fun here => here ▸ inRange) fun old => old, .inr⟩
    · simp only [Ledger.step, pushed, List.mem_cons, sound.given, size_push]
      exact or_comm.trans Nat.lt_succ_iff_lt_or_eq.symm
  | putRef node ids =>
    refine ⟨sound.mirrored.putRef node fun id mem => (sound.given id).mp (allowed id mem), fun id => ?_⟩
    simp [Ledger.step, sound.given]
  | mergeType id ty =>
    have changed := sound.mirrored.modify id (Binding.definition_mergeType ty) fun _ => rfl
    exact ⟨changed, fun i => by simp [Ledger.step, sound.given]⟩
  | refineType id ty =>
    have changed := sound.mirrored.modify id (Binding.definition_refineType ty) fun _ => rfl
    exact ⟨changed, fun i => by simp [Ledger.step, sound.given]⟩
  | removeFile file =>
    exact ⟨sound.mirrored.removeFile file, fun id => by simp [Ledger.step, sound.given, size_removeFile]⟩

theorem Leads.sound (leads : Leads {} l) : l.Sound := by
  induction leads with
  | here => exact ⟨mirrored_empty, by simp [Registry.empty]⟩
  | step op _ allowed ih => exact ih.step op allowed

theorem get?_step_eq_none {id : BindingId} (op : Op) (inRange : id < l.registry.slots.size)
    (gone : l.registry.get? id = none) :
    id < (l.step op).registry.slots.size ∧ (l.step op).registry.get? id = none := by
  cases op with
  | register name qname kind node body ty =>
    obtain ⟨i, old, -, -, same⟩ | ⟨new, pushed⟩ :=
      l.registry.register_cases { name, qname, kind, node, body, ty }
    · simp [Ledger.step, same, gone, inRange]
    · simp only [Ledger.step, pushed, size_push, get?_push, if_neg (Nat.ne_of_lt inRange)]
      exact ⟨Nat.lt_succ_of_lt inRange, gone⟩
  | putRef node ids => simp [Ledger.step, get?_putRef, gone, inRange]
  | mergeType i ty => simp [Ledger.step, gone, inRange]
  | refineType i ty => simp [Ledger.step, gone, inRange]
  | removeFile file => simp [Ledger.step, get?_removeFile, gone, size_removeFile, inRange]

theorem Leads.get?_eq_none {id : BindingId} (leads : Leads l m) (inRange : id < l.registry.slots.size)
    (gone : l.registry.get? id = none) : id < m.registry.slots.size ∧ m.registry.get? id = none := by
  induction leads with
  | here => exact ⟨inRange, gone⟩
  | step op _ _ ih => exact get?_step_eq_none op ih.1 ih.2

structure InOrder (l : Ledger) : Prop where
  /-- No two live bindings are of one definition. -/
  single : ∀ i j a b, l.registry.get? i = some a → l.registry.get? j = some b →
      a.definition = b.definition → i = j
  /-- The index has the definitions of the live bindings, and no others. -/
  inStep : ∀ d i, (d, i) ∈ l.registry.byNode ↔ ∃ b, l.registry.get? i = some b ∧ b.definition = d
  /-- A live definition keeps its number when it is registered again. -/
  same : ∀ i a b, l.registry.get? i = some a → b.definition = a.definition → (l.registry.register b).1 = i
  /-- Any other definition gets a number that was never given out. -/
  fresh : ∀ b, (∀ i a, l.registry.get? i = some a → b.definition ≠ a.definition) →
      (l.registry.register b).1 ∉ l.given
  /-- A number whose binding has gone stays without one. -/
  gone : ∀ i ∈ l.given, l.registry.get? i = none → ∀ m, Leads l m → m.registry.get? i = none
  /-- A node is among the references of a live binding just when the binding is in the list of the
  node. -/
  both : ∀ i b, l.registry.get? i = some b → ∀ n, n ∈ b.refs ↔ l.registry.Refers n i
  /-- The index has each node once, under its own file, and no binding twice for it. -/
  indexed : l.registry.Indexed
  distinct : l.registry.links.Nodup
  counted : l.registry.crossReferences = l.registry.links.length

/-- **The registry stays in order.** -/
theorem inOrder_of_leads (leads : Leads {} l) : l.InOrder := by
  have sound := leads.sound
  have mirrored := sound.mirrored
  constructor
  · intro i j a b here there same
    have first := mem_byNode.mpr (definition?_eq_some.mpr ⟨a, here, same⟩)
    have second := mem_byNode.mpr (definition?_eq_some.mpr ⟨b, there, rfl⟩)
    exact l.registry.single _ i j first second
  · intro d i
    exact mem_byNode.trans definition?_eq_some
  · intro i a b live same
    have found := find?_eq_some_iff.mpr (definition?_eq_some.mpr ⟨a, live, same.symm⟩)
    rw [register_of_some found]
  · intro b other
    have new : l.registry.find? b.definition = none := by
      refine find?_eq_none_iff.mpr fun i there => ?_
      obtain ⟨a, live, same⟩ := definition?_eq_some.mp there
      exact other i a live same.symm
    rw [register_of_none new, sound.given]
    exact Nat.lt_irrefl _
  · intro i given gone m later
    exact (later.get?_eq_none ((sound.given i).mp given) gone).2
  · intro i b live
    exact mirrored.both live
  · exact mirrored.indexed
  · exact mirrored.indexed.nodup_links
  · exact mirrored.crossReferences_eq

/-- Each of two files defines a name and refers to the other's. The first one goes, and while a node
still refers to its old number it comes again. -/
def replaced : List Op :=
  let first (id : NodeId) : NodeRef := ⟨0, ⟨"/p/a.rb"⟩, id⟩
  let second (id : NodeId) : NodeRef := ⟨1, ⟨"/p/b.rb"⟩, id⟩
  [.register "x" "x" .variable (first 0) default .num,
    .register "y" "y" .variable (second 0) default .unknown,
    .putRef (second 1) [0, 1, 0], .putRef (first 1) [1], .refineType 1 .num,
    .removeFile ⟨"/p//a.rb"⟩, .putRef (second 1) [0],
    .register "x" "x" .variable (first 0) default .nil, .register "y" "y" .variable (second 0) default .nil]

theorem inOrder_of_leads_replaced :
    (replaced.foldl step {}).given = [1, 2, 1, 0] ∧ (replaced.foldl step {}).registry.get? 0 = none ∧
      (replaced.foldl step {}).registry.crossReferences = 1 ∧ (replaced.foldl step {}).InOrder := by
  refine ⟨by decide +kernel, by decide +kernel, by decide +kernel, inOrder_of_leads ?_⟩
  simp only [replaced, List.foldl_cons, List.foldl_nil]
  refine .step _ (.step _ (.step _
    (.step _ (.step _ (.step _ (.step _ (.step _ (.step _ .here ?_) ?_) ?_) ?_) ?_) ?_) ?_) ?_) ?_
  all_goals decide +kernel

end Ledger

end RubyInfer
