import RubyInfer.Proofs.Session.Unused

/-!
# Forgetting a file

Removing a file takes out of every index what belongs to the file (`FreeOf`) and leaves the rest
(`Spares`). Files can be removed in any order and as often as one likes: the session is the same
(`removeFile_comm`, `removeFile_idem`).
-/

namespace RubyInfer

/-! ## Tables of paths -/

namespace PathSet

theorem erase_comm (s : PathSet) (p q : Path) : (s.erase p).erase q = (s.erase q).erase p := by
  simp [erase, List.filter_filter, Bool.and_comm]

theorem erase_idem (s : PathSet) (p : Path) : (s.erase p).erase p = s.erase p := by
  simp [erase, List.filter_filter]

end PathSet

namespace PathMap

variable {α : Type}

theorem contains_erase (m : PathMap α) (p q : Path) :
    (m.erase p).contains q = (m.contains q && !p.same q) := by
  rw [contains_eq_isSome, contains_eq_isSome, get?_erase]
  cases p.same q <;> simp

theorem erase_comm (m : PathMap α) (p q : Path) : (m.erase p).erase q = (m.erase q).erase p := by
  simp [erase, List.filter_filter, Bool.and_comm]

theorem erase_idem (m : PathMap α) (p : Path) : (m.erase p).erase p = m.erase p := by
  simp [erase, List.filter_filter]

theorem mapValues_mapValues (m : PathMap α) (f g : α → α) :
    (m.mapValues f).mapValues g = m.mapValues (g ∘ f) := by
  simp [mapValues]

theorem erase_mapValues (m : PathMap α) (f : α → α) (p : Path) :
    (m.mapValues f).erase p = (m.erase p).mapValues f := by
  simp only [erase, mapValues, List.filter_map]
  rfl

end PathMap

/-! ## Reports by file -/

namespace Diagnostics

def Own (ds : Diagnostics) : Prop := ∀ e ∈ ds.byFile.entries, ∀ d ∈ e.2, d.file.same e.1 = true

variable {ds : Diagnostics}

theorem Own.push (own : ds.Own) (d : Diagnostic) : (ds.push d).Own := by
  intro e mem x inside
  obtain old | ⟨list, there, here, changed⟩ | rfl := PathMap.mem_entries_update mem
  · exact own e old x inside
  · rw [changed] at inside
    split at inside
    · exact own _ there x inside
    · obtain old | last := List.mem_append.mp inside
      · exact own _ there x old
      · rw [List.mem_singleton.mp last]
        exact here
  · rw [List.mem_singleton.mp inside]
    exact Path.same_refl _

theorem Own.retract (own : ds.Own) (d : Diagnostic) : (ds.retract d).Own := by
  unfold Diagnostics.retract
  split
  · intro e mem x inside
    obtain old | ⟨list, there, here, changed⟩ | rfl := PathMap.mem_entries_update mem
    · exact own e old x inside
    · rw [changed] at inside
      exact own _ there x (List.mem_filter.mp inside).1
    · simp at inside
  · exact own

theorem Own.removeFile (own : ds.Own) (file : Path) : (ds.removeFile file).Own := by
  intro e mem
  exact own e (List.mem_filter.mp mem).1

theorem Own.foldl {step : Diagnostics → Diagnostic → Diagnostics}
    (each : ∀ ds d, Own ds → (step ds d).Own) (own : ds.Own)
    (reports : List Diagnostic) : (reports.foldl step ds).Own := by
  induction reports generalizing ds with
  | nil => exact own
  | cons d reports ih => exact ih (each ds d own)

theorem Own.other_of_mem_removeFile (own : ds.Own) {file : Path} {d : Diagnostic}
    (mem : d ∈ (ds.removeFile file).all) :
    d.file.same file = false := by
  obtain ⟨list, inside, here⟩ := List.mem_flatten.mp mem
  obtain ⟨e, there, rfl⟩ := List.mem_map.mp inside
  obtain ⟨old, other⟩ := List.mem_filter.mp there
  have filed := own e old d here
  rw [Path.same_comm, Path.same_congr filed]
  simpa using other

end Diagnostics

namespace Session

variable {R : Regime} {s t : Session}

theorem Change.own (change : Change R s t) (own : s.diagnostics.Own) : t.diagnostics.Own := by
  cases change with
  | update step =>
    cases step with
    | report node id => exact own.push _
    | recordFailure file => exact own.push _
    | _ => exact own
  | _ => exact own

theorem Act.own (step : Act s t) (idle : s.Idle) (own : s.diagnostics.Own) : t.diagnostics.Own := by
  cases step with
  | advance step =>
    cases step with
    | begin | prewarm => exact own
    | load path force => exact (runs_load s.sound_any idle.depth path force).keeps Change.own own
    | drain id => exact (runs_apply s.sound_any idle.depth id).keeps Change.own own
  | edit | setStatic | clearCache => exact own
  | removeFile path => exact own.removeFile _
  | reportUnused => exact (own.foldl (fun _ d own => own.retract d) _).foldl (fun _ d own => own.push d) _

theorem Passed.own (passed : Passed s) : s.diagnostics.Own := by
  induction passed with
  | new made =>
    rw [new_eq made]
    intro e mem
    simp at mem
  | act before step own => exact step.own before.idle own

end Session

/-! ## Bindings and scopes without a file -/

namespace Registry

theorem contains_idsIn_removeFile (r : Registry) (p q : Path) (id : BindingId) :
    ((r.removeFile p).2.idsIn q).contains id = ((r.idsIn q).contains id && !(r.idsIn p).contains id) := by
  rw [contains_idsIn, contains_idsIn, contains_idsIn, get?_removeFile]
  cases r.get? id with
  | none => rfl
  | some b =>
    cases inside : isIn p b with
    | true => simp [Option.filter, inside]
    | false =>
      simp only [Option.filter, inside, Bool.not_false, if_true, Option.map_some, Option.any_some,
        Bool.and_true]
      rfl

theorem filter_idsIn_removeFile (r : Registry) (p q : Path) (ids : List BindingId) :
    (ids.filter fun id => !(r.idsIn p).contains id).filter
      (fun id => !((r.removeFile p).2.idsIn q).contains id) =
      ids.filter fun id => !(r.idsIn p).contains id && !(r.idsIn q).contains id := by
  rw [List.filter_filter]
  congr 1
  funext id
  rw [contains_idsIn_removeFile]
  cases (r.idsIn p).contains id <;> cases (r.idsIn q).contains id <;> rfl

theorem slots_removeFile_removeFile (r : Registry) (p q : Path) :
    ((r.removeFile p).2.removeFile q).2.slots =
      r.slots.map fun slot => (slot.filter fun b => !isIn p b && !isIn q b).map
        fun b => { b with refs := b.refs.filter fun n => !n.file.same p && !n.file.same q } := by
  show (r.slots.map _).map _ = _
  rw [Array.map_map]
  congr 1
  funext slot
  cases slot with
  | none => rfl
  | some b =>
    have place (refs : List NodeRef) : isIn q { b with refs } = isIn q b := rfl
    cases inP : isIn p b <;> cases inQ : isIn q b <;>
      simp [Option.filter, withoutRefs, inP, inQ, place, List.filter_filter, Bool.and_comm]

theorem byNode_removeFile_removeFile (r : Registry) (p q : Path) :
    ((r.removeFile p).2.removeFile q).2.byNode =
      r.byNode.filter fun e => !(r.idsIn p).contains e.2 && !(r.idsIn q).contains e.2 := by
  show (r.byNode.filter _).filter _ = _
  rw [List.filter_filter]
  congr 1
  funext e
  rw [contains_idsIn_removeFile]
  cases (r.idsIn p).contains e.2 <;> cases (r.idsIn q).contains e.2 <;> rfl

theorem references_removeFile_removeFile (r : Registry) (p q : Path) :
    ((r.removeFile p).2.removeFile q).2.references =
      ((r.references.erase p).erase q).mapValues fun index =>
        index.map fun e => (e.1, e.2.filter fun id =>
          !(r.idsIn p).contains id && !(r.idsIn q).contains id) := by
  show (((r.references.erase p).mapValues _).erase q).mapValues _ = _
  rw [PathMap.erase_mapValues, PathMap.mapValues_mapValues]
  congr 1
  funext index
  simp only [Function.comp, List.map_map]
  congr 1
  funext e
  exact congrArg (Prod.mk e.1) (r.filter_idsIn_removeFile p q e.2)

theorem eq_of_parts {r r' : Registry} (slots : r.slots = r'.slots) (byNode : r.byNode = r'.byNode)
    (references : r.references = r'.references) : r = r' := by
  cases r
  cases r'
  simp_all

theorem removeFile_comm (r : Registry) (p q : Path) :
    ((r.removeFile p).2.removeFile q).2 = ((r.removeFile q).2.removeFile p).2 := by
  apply eq_of_parts
  · rw [slots_removeFile_removeFile, slots_removeFile_removeFile]
    simp only [Bool.and_comm]
  · rw [byNode_removeFile_removeFile, byNode_removeFile_removeFile]
    simp only [Bool.and_comm]
  · rw [references_removeFile_removeFile, references_removeFile_removeFile, PathMap.erase_comm]
    simp only [Bool.and_comm]

theorem removeFile_idem (r : Registry) (p : Path) :
    ((r.removeFile p).2.removeFile p).2 = (r.removeFile p).2 := by
  apply eq_of_parts
  · rw [slots_removeFile_removeFile]
    simp only [Bool.and_self]
    rfl
  · rw [byNode_removeFile_removeFile]
    simp only [Bool.and_self]
    rfl
  · rw [references_removeFile_removeFile, PathMap.erase_idem]
    simp only [Bool.and_self]
    rfl

end Registry

namespace Scopes

theorem purge_purge (s : Scopes) (r : Registry) (p q : Path) :
    (s.purge (r.idsIn p)).purge ((r.removeFile p).2.idsIn q) =
      ⟨s.arena.map fun scope => { scope with
        table := scope.table.map fun e =>
          (e.1, e.2.filter fun id => !(r.idsIn p).contains id && !(r.idsIn q).contains id) }⟩ := by
  refine (Scopes.mk.injEq ..).mpr ?_
  show (s.arena.map _).map _ = _
  rw [Array.map_map]
  congr 1
  funext scope
  simp only [Function.comp, List.map_map]
  congr 2
  funext e
  exact congrArg (Prod.mk e.1) (r.filter_idsIn_removeFile p q e.2)

theorem local?_purge {s : Scopes} {removed : List BindingId} {i : ScopeId} {name : String} {tier : Tier}
    (others : ∀ ids, s.local? i name tier = some ids → ∀ id ∈ ids, id ∉ removed) :
    (s.purge removed).local? i name tier = s.local? i name tier := by
  unfold local? at others ⊢
  rw [get_purge]
  unfold Scope.local? at others ⊢
  rw [Scope.lookup_map_values]
  cases entry : (s.get i).table.lookup ⟨name, tier⟩ with
  | none => rfl
  | some ids =>
    rw [entry] at others
    cases ids with
    | nil => rfl
    | cons id ids =>
      have kept : (id :: ids).filter (fun id => !removed.contains id) = id :: ids := by
        apply List.filter_eq_self.mpr
        intro x mem
        simpa using others _ rfl x mem
      rw [Option.map_some, kept]

theorem lookup?_purge {s : Scopes} {removed : List BindingId} {i : ScopeId} {name : String} {tier : Tier}
    (others : ∀ ids, s.lookup? i name tier = some ids → ∀ id ∈ ids, id ∉ removed) :
    (s.purge removed).lookup? i name tier = s.lookup? i name tier := by
  have outward : (s.purge removed).chain i = s.chain i := chain_congr (fun i => by rw [get_purge]) i
  unfold lookup? at others ⊢
  rw [outward]
  generalize s.chain i = chain at others
  -- The scopes before the nearest entry have none, and so have none afterwards.
  induction chain with
  | nil => rfl
  | cons j chain ih =>
    rw [List.findSome?_cons] at others
    rw [List.findSome?_cons, List.findSome?_cons]
    have entry : (s.purge removed).local? j name tier = s.local? j name tier := by
      apply local?_purge
      intro ids here
      rw [here] at others
      exact others ids rfl
    rw [entry]
    cases here : s.local? j name tier with
    | none =>
      rw [here] at others
      exact ih others
    | some ids => rfl

end Scopes

namespace Session

/-! ## What is left -/

structure FreeOf (s : Session) (file : Path) : Prop where
  bindings {id : BindingId} {b : Binding} : s.registry.get? id = some b → b.file.same file = false
  entries {id : BindingId} : s.scopes.Holds id → ∃ b, s.registry.get? id = some b ∧ b.file.same file = false
  mentioned {id : BindingId} : s.registry.Mentions id → ∃ b, s.registry.get? id = some b ∧
      b.file.same file = false
  index : s.registry.referencesIn? file = none
  keys : ∀ node ∈ s.registry.keys, node.file.same file = false
  refs {id : BindingId} {b : Binding} : s.registry.get? id = some b → ∀ node ∈ b.refs,
      node.file.same file = false
  reports : ∀ d ∈ s.diagnostics.all, d.file.same file = false
  loaded : s.loaded.contains file = false
  failed : s.failed.contains file = false
  resolved : ∀ node ∈ s.resolved, node.file.same file = false
  unresolved : ∀ node ∈ s.unresolved, node.file.same file = false
  memory : s.cache.contains file = false
  uncalled : ∀ id ∈ s.uncalled, (s.function id).node.file.same file = false
  functionAt : ∀ e ∈ s.functionAt, e.1.file.same file = false

def Rest (s t : Session) : Prop :=
  t = { s with
    registry := t.registry, scopes := t.scopes, diagnostics := t.diagnostics, loaded :=
      t.loaded, failed := t.failed,
    resolved := t.resolved, unresolved := t.unresolved, cache := { s.cache with memory := t.cache.memory },
    uncalled := t.uncalled, functionAt := t.functionAt }

structure Spares (file : Path) (s t : Session) : Prop where
  bindings {id : BindingId} {b : Binding} : s.registry.get? id = some b → b.file.same file = false →
    t.registry.get? id = some { b with refs := b.refs.filter fun node => !node.file.same file }
  entries {scope : ScopeId} {name : String} {tier : Tier} :
    (∀ ids, s.scopes.local? scope name tier = some ids → ∀ id ∈ ids, id ∉ s.registry.idsIn file) →
      t.scopes.local? scope name tier = s.scopes.local? scope name tier
  lookups {scope : ScopeId} {name : String} {tier : Tier} :
    (∀ ids, s.scopes.lookup? scope name tier = some ids → ∀ id ∈ ids, id ∉ s.registry.idsIn file) →
      t.scopes.lookup? scope name tier = s.scopes.lookup? scope name tier
  names {scope : ScopeId} {name : String} :
    (∀ ids, s.lookupName? scope name = some ids → ∀ id ∈ ids, id ∉ s.registry.idsIn file) →
      t.lookupName? scope name = s.lookupName? scope name
  index {other : Path} : file.same other = false → t.registry.referencesIn? other =
    (s.registry.referencesIn? other).map fun index =>
      index.map fun e => (e.1, e.2.filter fun id => !(s.registry.idsIn file).contains id)
  reports {other : Path} : file.same other = false → t.diagnostics.forFile other = s.diagnostics.forFile other
  loaded {other : Path} : file.same other = false → t.loaded.contains other = s.loaded.contains other
  failed {other : Path} : file.same other = false → t.failed.contains other = s.failed.contains other
  memory {other : Path} : file.same other = false → t.cache.memory.get? other = s.cache.memory.get? other
  resolved {node : NodeRef} : node.file.same file = false → (node ∈ t.resolved ↔ node ∈ s.resolved)
  unresolved {node : NodeRef} : node.file.same file = false → (node ∈ t.unresolved ↔ node ∈ s.unresolved)
  uncalled {id : FunctionId} : (s.function id).node.file.same file = false →
      (id ∈ t.uncalled ↔ id ∈ s.uncalled)
  functionAt {e : NodeRef × FunctionId} : e.1.file.same file = false → (e ∈ t.functionAt ↔ e ∈ s.functionAt)
  rest : Rest s t

variable {s : Session}

theorem get?_removeFile (s : Session) (path : Path) (id : BindingId) :
    (s.removeFile path).registry.get? id =
      ((s.registry.get? id).filter fun b => !b.file.same (s.files.settle path)).map
        (Registry.withoutRefs (s.files.settle path)) :=
  Registry.get?_removeFile ..

theorem live_removeFile {path : Path} {id : BindingId} {b : Binding}
    (live : (s.removeFile path).registry.get? id = some b) :
    ∃ old, s.registry.get? id = some old ∧ old.file.same (s.files.settle path) = false ∧
      b = Registry.withoutRefs (s.files.settle path) old := by
  rw [get?_removeFile] at live
  obtain ⟨old, kept, rfl⟩ := Option.map_eq_some_iff.mp live
  obtain ⟨before, other⟩ := Option.filter_eq_some_iff.mp kept
  exact ⟨old, before, by simpa using other, rfl⟩

theorem Coherent.freeOf (coherent : s.Coherent) (own : s.diagnostics.Own) (path : Path) :
    (s.removeFile path).FreeOf (s.files.settle path) := by
  have linked : Linked (s.removeFile path).scopes (s.removeFile path).registry :=
    (coherent.removeFile path).linked
  have bindings {id : BindingId} {b : Binding} (live : (s.removeFile path).registry.get? id = some b) :
      b.file.same (s.files.settle path) = false := by
    obtain ⟨old, -, other, rfl⟩ := live_removeFile live
    exact other
  have foreign {id : BindingId} (live : ((s.removeFile path).registry.get? id).isSome = true) :
      ∃ b, (s.removeFile path).registry.get? id = some b ∧ b.file.same (s.files.settle path) = false := by
    obtain ⟨b, here⟩ := Option.isSome_iff_exists.mp live
    exact ⟨b, here, bindings here⟩
  have elsewhere {nodes : List NodeRef} :
      ∀ n ∈ nodes.filter (fun node => !node.file.same (s.files.settle path)),
      n.file.same (s.files.settle path) = false := by
    intro n mem
    simpa using (List.mem_filter.mp mem).2
  have keys : ∀ node ∈ (s.removeFile path).registry.keys, node.file.same (s.files.settle path) = false := by
    intro node mem
    exact (coherent.linked.indexed.mem_keys_removeFile.mp mem).2
  refine ⟨bindings, fun held => foreign (linked.entered held), fun here =>
    foreign (linked.mentioned here), ?_, keys, ?_, ?_, ?_,
    ?_, elsewhere, elsewhere, ?_, ?_, ?_⟩
  · show ((s.registry.references.erase _).mapValues _).get? _ = none
    rw [PathMap.get?_mapValues, PathMap.get?_erase, if_pos (Path.same_refl _)]
    rfl
  · intro id b live
    obtain ⟨old, -, -, rfl⟩ := live_removeFile live
    exact elsewhere
  · intro d mem
    exact own.other_of_mem_removeFile mem
  · exact (PathSet.contains_erase ..).trans (by simp [Path.same_refl])
  · exact (PathSet.contains_erase ..).trans (by simp [Path.same_refl])
  · exact (PathMap.contains_erase ..).trans (by simp [Path.same_refl])
  · intro id mem
    exact Bool.not_eq_true' _ ▸ (List.mem_filter.mp mem).2
  · intro e mem
    exact Bool.not_eq_true' _ ▸ (List.mem_filter.mp mem).2

theorem spares_removeFile (s : Session) (path : Path) :
    Spares (s.files.settle path) s (s.removeFile path) where
  bindings live other := by
    rw [get?_removeFile, live]
    simp [Option.filter, other, Registry.withoutRefs]
  entries others := Scopes.local?_purge others
  lookups others := Scopes.lookup?_purge others
  names {scope name} others := by
    -- The second tier counts only where the first has no entry, and then the first has none
    -- afterwards.
    unfold lookupName? at others ⊢
    have first : (s.removeFile path).scopes.lookup? scope name
        (if s.staticContext then .ofClass else .object) =
        s.scopes.lookup? scope name (if s.staticContext then .ofClass else .object) := by
      apply Scopes.lookup?_purge
      intro ids here
      exact others ids (by simp [here])
    show ((s.removeFile path).scopes.lookup? scope name (if s.staticContext then .ofClass else .object)).or
        ((s.removeFile path).scopes.lookup? scope name (if s.staticContext then .object else .ofClass)) =
      (s.scopes.lookup? scope name (if s.staticContext then .ofClass else .object)).or
        (s.scopes.lookup? scope name (if s.staticContext then .object else .ofClass))
    rw [first]
    cases found : s.scopes.lookup? scope name (if s.staticContext then .ofClass else .object) with
    | some ids => rfl
    | none =>
      rw [Option.none_or, Option.none_or]
      apply Scopes.lookup?_purge
      intro ids here
      exact others ids (by simp [found, here])
  index {other} apart := by
    show ((s.registry.references.erase _).mapValues _).get? other = _
    rw [PathMap.get?_mapValues, PathMap.get?_erase, if_neg (by simp [apart])]
    rfl
  reports {other} apart := by
    show (s.diagnostics.removeFile _).forFile other = _
    rw [Diagnostics.forFile_removeFile, if_neg (by simp [apart])]
  loaded apart := (PathSet.contains_erase ..).trans (by simp [apart])
  failed apart := (PathSet.contains_erase ..).trans (by simp [apart])
  memory {other} apart := by
    show (s.cache.memory.erase _).get? other = _
    rw [PathMap.get?_erase, if_neg (by simp [apart])]
  resolved other := List.mem_filter.trans (by simp [other])
  unresolved other := List.mem_filter.trans (by simp [other])
  uncalled other := List.mem_filter.trans (by simp [other])
  functionAt other := List.mem_filter.trans (by simp [other])
  rest := rfl

/-! ## Several files -/

theorem Rest.eq {t u : Session} (left : Rest s t) (right : Rest s u)
    (registry : t.registry = u.registry) (scopes : t.scopes = u.scopes)
    (diagnostics : t.diagnostics = u.diagnostics) (loaded : t.loaded = u.loaded)
    (failed : t.failed = u.failed)
    (resolved : t.resolved = u.resolved) (unresolved : t.unresolved = u.unresolved)
    (memory : t.cache.memory = u.cache.memory)
    (uncalled : t.uncalled = u.uncalled) (functionAt : t.functionAt = u.functionAt) : t = u := by
  refine left.trans (Eq.trans ?_ right.symm)
  rw [registry, scopes, diagnostics, loaded, failed, resolved, unresolved, memory, uncalled, functionAt]

theorem scopes_removeFile_removeFile (s : Session) (p q : Path) :
    ((s.removeFile p).removeFile q).scopes =
      (s.scopes.purge (s.registry.idsIn (s.files.settle p))).purge
        ((s.registry.removeFile (s.files.settle p)).2.idsIn (s.files.settle q)) := rfl

theorem removeFile_comm (s : Session) (p q : Path) :
    (s.removeFile p).removeFile q = (s.removeFile q).removeFile p := by
  have filtered {α : Type} (xs : List α) (f g : α → Bool) :
      (xs.filter f).filter g = (xs.filter g).filter f := by
    rw [List.filter_filter, List.filter_filter]
    simp only [Bool.and_comm]
  apply Rest.eq (show Rest s ((s.removeFile p).removeFile q) from rfl)
    (show Rest s ((s.removeFile q).removeFile p) from rfl)
  · exact s.registry.removeFile_comm _ _
  · rw [scopes_removeFile_removeFile, scopes_removeFile_removeFile, Scopes.purge_purge, Scopes.purge_purge]
    simp only [Bool.and_comm]
  · exact congrArg Diagnostics.mk (PathMap.erase_comm ..)
  · exact PathSet.erase_comm ..
  · exact PathSet.erase_comm ..
  · exact filtered ..
  · exact filtered ..
  · exact PathMap.erase_comm ..
  · exact filtered ..
  · exact filtered ..

theorem removeFile_idem (s : Session) (p : Path) : (s.removeFile p).removeFile p = s.removeFile p := by
  have filtered {α : Type} (xs : List α) (f : α → Bool) : (xs.filter f).filter f = xs.filter f := by
    simp [List.filter_filter]
  apply Rest.eq (show Rest s ((s.removeFile p).removeFile p) from rfl) (show Rest s (s.removeFile p) from rfl)
  · exact s.registry.removeFile_idem _
  · rw [scopes_removeFile_removeFile, Scopes.purge_purge]
    simp only [Bool.and_self]
    rfl
  · exact congrArg Diagnostics.mk (PathMap.erase_idem ..)
  · exact PathSet.erase_idem ..
  · exact PathSet.erase_idem ..
  · exact filtered ..
  · exact filtered ..
  · exact PathMap.erase_idem ..
  · exact filtered ..
  · exact filtered ..

/-- **Removing a file is complete and touches nothing else.** Nothing in a reachable session belongs
to a file that has just been removed, and what belongs to other files is as it was. The order in
which files are removed does not matter, nor does removing a file twice. -/
theorem removeFile_exact (reached : Reachable s) (path : Path) :
    (s.removeFile path).FreeOf (s.files.settle path) ∧ Spares (s.files.settle path) s (s.removeFile path) ∧
      (∀ other, (s.removeFile path).removeFile other = (s.removeFile other).removeFile path) ∧
      (s.removeFile path).removeFile path = s.removeFile path :=
  ⟨reached.passed.coherent.freeOf reached.passed.own path, spares_removeFile s path, fun other =>
    removeFile_comm s path other,
    removeFile_idem s path⟩

def beforeReading : Session where
  options := { cacheDir := ⟨"cache"⟩, diskCache := false }
  files := { root := .folder [("a.rb", .file assignment.toUTF8),
    ("b.rb", .file "\x7b\"type\":\"name\",\"id\":\"x\"\x7d".toUTF8)] }
  cache := { dumper := .content }

def afterReading : Session := ((beforeReading.loadFile ⟨"/a.rb"⟩).2.loadFile ⟨"/b.rb"⟩).2

/-- The reader goes: the binding stays, without the one reference that it has. -/
theorem removeFile_exact_reader :
    Reachable afterReading ∧ (afterReading.removeFile ⟨"/b.rb"⟩).FreeOf ⟨"/b.rb"⟩ ∧
      ∃ b, afterReading.registry.get? 0 = some b ∧ b.file = ⟨"/a.rb"⟩ ∧ b.refs = [⟨1, ⟨"/b.rb"⟩, 0⟩] ∧
        (afterReading.removeFile ⟨"/b.rb"⟩).registry.get? 0 = some { b with refs := [] } := by
  have fresh : Reachable beforeReading := reachable_empty _ _ rfl rfl
  have reached : Reachable afterReading := (fresh.loadFile ⟨"/a.rb"⟩).loadFile ⟨"/b.rb"⟩
  have settled : afterReading.files.settle ⟨"/b.rb"⟩ = ⟨"/b.rb"⟩ := by decide +kernel
  have bound : (afterReading.registry.get? 0).any (fun b => b.file = ⟨"/a.rb"⟩ ∧
      b.refs = [⟨1, ⟨"/b.rb"⟩, 0⟩]) = true := by
    decide +kernel
  obtain ⟨free, spares, -, -⟩ := removeFile_exact reached ⟨"/b.rb"⟩
  rw [settled] at free spares
  obtain ⟨b, live, facts⟩ := (Option.any_eq_true ..).mp bound
  obtain ⟨file, refs⟩ := of_decide_eq_true facts
  refine ⟨reached, free, b, live, file, refs, ?_⟩
  rw [spares.bindings live (by rw [file]; decide), refs]
  rfl

end Session

end RubyInfer
