import RubyInfer.Proofs.Store.Index

/-!
# Scopes and registry are linked

The bindings that scopes hold and those that the registry has are the same ones, and the reference
index mentions no others. Every operation of the store keeps it so, on the condition that it is
given scopes that are there and bindings that scopes hold.
-/

namespace RubyInfer

namespace Registry

theorem isSome_get?_register_iff {r : Registry} {b : Binding} {id : BindingId} :
    ((r.register b).2.get? id).isSome = true ↔ (r.get? id).isSome = true ∨ id = (r.register b).1 := by
  obtain ⟨old, was, live, -, same⟩ | ⟨new, pushed⟩ := r.register_cases b
  · rw [same, get?_modify, Option.isSome_map]
    refine ⟨.inl, fun h => h.elim (fun live => live) fun here => ?_⟩
    rw [here, live]
    rfl
  · rw [pushed, get?_push]
    by_cases here : id = r.slots.size <;> simp [here]

theorem isSome_get?_removeFile {r : Registry} {file : Path} {id : BindingId} :
    ((r.removeFile file).2.get? id).isSome = true ↔ (r.get? id).isSome = true ∧ id ∉ r.idsIn file := by
  rw [get?_removeFile, Option.isSome_map, mem_idsIn]
  cases r.get? id with
  | none => simp
  | some b => simp

end Registry

namespace Scopes

variable {s : Scopes}

theorem holds_purge {removed : List BindingId} {x : BindingId} :
    (s.purge removed).Holds x ↔ s.Holds x ∧ x ∉ removed := by
  constructor
  · rintro ⟨i, sc', here, e, entry, mem⟩
    rw [getElem?_purge] at here
    obtain ⟨sc, there, rfl⟩ := Option.map_eq_some_iff.mp here
    obtain ⟨old, before, rfl⟩ := List.mem_map.mp entry
    obtain ⟨inside, kept⟩ := List.mem_filter.mp mem
    exact ⟨⟨i, sc, there, old, before, inside⟩, by simpa using kept⟩
  · rintro ⟨⟨i, sc, there, e, entry, mem⟩, kept⟩
    refine ⟨i, _, by rw [getElem?_purge, there]; rfl, _, List.mem_map_of_mem entry, ?_⟩
    exact List.mem_filter.mpr ⟨mem, by simpa using kept⟩

def Once (s : Scopes) : Prop := ∀ (i : ScopeId) (sc : Scope), s.arena[i]? = some sc →
    ∀ e ∈ sc.table, e.2.Nodup

theorem Once.enter (once : s.Once) (scope : ScopeId) (name : String) (tier : Tier) (id : BindingId) :
    (s.enter scope name tier id).Once := by
  intro i sc' here e entry
  rw [getElem?_enter] at here
  obtain ⟨sc, there, rfl⟩ := Option.map_eq_some_iff.mp here
  split at entry
  · obtain old | rfl | ⟨ids, old, rfl⟩ := Scope.mem_table_add entry
    · exact once i sc there e old
    · simp
    · exact Registry.nodup_addNew (once i sc there _ old) id
  · exact once i sc there e entry

theorem Once.push (once : s.Once) (kind : ScopeKind) (parent : Option ScopeId) (path : String) :
    (s.push kind parent path).2.Once := by
  intro i sc here e entry
  rw [getElem?_push] at here
  split at here
  · cases here
    simp at entry
  · exact once i sc here e entry

theorem Once.purge (once : s.Once) (removed : List BindingId) : (s.purge removed).Once := by
  intro i sc' here e entry
  rw [getElem?_purge] at here
  obtain ⟨sc, there, rfl⟩ := Option.map_eq_some_iff.mp here
  obtain ⟨old, before, rfl⟩ := List.mem_map.mp entry
  exact (once i sc there old before).filter _

end Scopes

structure Linked (s : Scopes) (r : Registry) : Prop where
  entered {id : BindingId} : s.Holds id → (r.get? id).isSome = true
  named {id : BindingId} : (r.get? id).isSome = true → s.Holds id
  mentioned {id : BindingId} : r.Mentions id → (r.get? id).isSome = true
  once : s.Once
  indexed : r.Indexed

namespace Linked

variable {s : Scopes} {r r' : Registry}

theorem empty : Linked {} .empty := by
  have vacant {i : ScopeId} {sc : Scope} (here : ({} : Scopes).arena[i]? = some sc) : sc.table = [] := by
    obtain ⟨rfl, rfl⟩ : i = 0 ∧ sc = ⟨.global, none, "", []⟩ := by
      cases i with
      | zero => exact ⟨rfl, by simpa using here.symm⟩
      | succ i => simp at here
    rfl
  refine ⟨fun held => ?_, fun live => ?_, fun mentioned => ?_, fun i sc here e mem => ?_,
    ⟨.nil, by simp [Registry.empty]⟩⟩
  · obtain ⟨i, sc, here, e, mem, -⟩ := held
    simp [vacant here] at mem
  · simp at live
  · obtain ⟨entry, mem, -⟩ := mentioned
    simp [Registry.empty] at mem
  · simp [vacant here] at mem

theorem live (linked : Linked s r) (same : ∀ id, (r'.get? id).isSome = (r.get? id).isSome)
    (references : r'.references = r.references) : Linked s r' where
  entered held := (same _).trans (linked.entered held)
  named live := linked.named ((same _).symm.trans live)
  mentioned := by
    rintro id ⟨entry, mem, e, inside, here⟩
    rw [references] at mem
    exact (same id).trans (linked.mentioned ⟨entry, mem, e, inside, here⟩)
  once := linked.once
  indexed := ⟨references ▸ linked.indexed.paths, references ▸ linked.indexed.filed⟩

theorem insert (linked : Linked s r) {scope : ScopeId} (inRange : scope < s.size) (tier : Tier)
    (b : Binding) :
    Linked (s.insert r scope tier b).2.1 (s.insert r scope tier b).2.2 where
  entered held := Registry.isSome_get?_register_iff.mpr ((Scopes.holds_enter held).imp_left linked.entered)
  named live := by
    obtain old | rfl := Registry.isSome_get?_register_iff.mp live
    · exact (linked.named old).enter ..
    · exact Scopes.holds_enter_self inRange ..
  mentioned := by
    rintro id ⟨entry, mem, e, inside, here⟩
    replace mem : entry ∈ (r.register b).2.references.entries := mem
    rw [Registry.references_register] at mem
    exact Registry.isSome_get?_register_iff.mpr (.inl (linked.mentioned ⟨entry, mem, e, inside, here⟩))
  once := linked.once.enter _ _ _ _
  indexed := by
    show (r.register b).2.Indexed
    have same := r.references_register b
    exact ⟨same ▸ linked.indexed.paths, same ▸ linked.indexed.filed⟩

theorem enter (linked : Linked s r) {id : BindingId} (held : s.Holds id) (scope : ScopeId)
    (name : String) (tier : Tier) :
    Linked (s.enter scope name tier id) r where
  entered here := (Scopes.holds_enter here).elim linked.entered fun same => same ▸ linked.entered held
  named live := (linked.named live).enter ..
  mentioned := linked.mentioned
  once := linked.once.enter _ _ _ _
  indexed := linked.indexed

theorem push (linked : Linked s r) (kind : ScopeKind) (parent : Option ScopeId) (path : String) :
    Linked (s.push kind parent path).2 r where
  entered held := linked.entered (Scopes.holds_push.mp held)
  named live := Scopes.holds_push.mpr (linked.named live)
  mentioned := linked.mentioned
  once := linked.once.push _ _ _
  indexed := linked.indexed

theorem putRef (linked : Linked s r) (node : NodeRef) {ids : List BindingId} (held : ∀ id ∈ ids, s.Holds id) :
    Linked s (r.putRef node ids) where
  entered here := by
    rw [Registry.get?_putRef, Option.isSome_map]
    exact linked.entered here
  named live := by
    rw [Registry.get?_putRef, Option.isSome_map] at live
    exact linked.named live
  mentioned here := by
    rw [Registry.get?_putRef, Option.isSome_map]
    exact (Registry.mentions_putRef here).elim linked.mentioned fun new => linked.entered (held _ new)
  once := linked.once
  indexed := linked.indexed.putRef node ids

theorem removeFile (linked : Linked s r) (file : Path) :
    Linked (s.purge (r.removeFile file).1) (r.removeFile file).2 where
  entered held := by
    obtain ⟨before, kept⟩ := Scopes.holds_purge.mp held
    exact Registry.isSome_get?_removeFile.mpr ⟨linked.entered before, kept⟩
  named live := by
    obtain ⟨before, kept⟩ := Registry.isSome_get?_removeFile.mp live
    exact Scopes.holds_purge.mpr ⟨linked.named before, kept⟩
  mentioned here := by
    obtain ⟨before, kept⟩ := Registry.mentions_removeFile here
    exact Registry.isSome_get?_removeFile.mpr ⟨linked.mentioned before, kept⟩
  once := linked.once.purge _
  indexed := linked.indexed.removeFile file

end Linked

end RubyInfer
