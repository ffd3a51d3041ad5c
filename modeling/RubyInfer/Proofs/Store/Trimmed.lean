import RubyInfer.Proofs.Store.Renumber

/-!
# Stores without a file

`Registry.Trimmed` and `Scopes.Trimmed` compare two stores, one of which is what the other would be
if a file had never been there: it has the same bindings but those of the file, numbered anew, and
the same references but those from the file and to its bindings. Each operation keeps it so, whether
it is carried over to the second store or dropped there because it belongs to the file.
-/

namespace RubyInfer

namespace Registry

/-! ## Bindings without a file -/

theorem isIn_congr {a b : Binding} (same : a.definition = b.definition) (file : Path) :
    isIn file a = isIn file b := by
  have node : a.node = b.node := congrArg Definition.node same
  rw [isIn, isIn, Binding.file, Binding.file, node]

theorem withoutRefs_addRef (file : Path) (b : Binding) (node : NodeRef) :
    withoutRefs file (b.addRef node) = if node.file.same file then withoutRefs file b else
      (withoutRefs file b).addRef node := by
  have there (other : node.file.same file = false) :
      (b.refs.filter fun n => !n.file.same file).contains node = b.refs.contains node := by
    rw [Bool.eq_iff_iff, List.contains_iff_mem, List.contains_iff_mem, List.mem_filter, other]
    simp
  cases within : node.file.same file with
  | true =>
    unfold Binding.addRef
    split <;> simp [withoutRefs, within]
  | false =>
    unfold Binding.addRef withoutRefs
    simp only [there within, Bool.false_eq_true, if_false]
    split <;> simp [within]

/-! ## Registries without a file -/

/-- Where the bindings of a file are the ones that are not kept: the second registry is what the
first would be without the file. -/
structure Trimmed (file : Path) (keep : BindingId → Bool) (r r' : Registry) : Prop where
  kept {id : BindingId} {b : Binding} : r.get? id = some b → keep id = !isIn file b
  bindings {id : BindingId} {b : Binding} : r.get? id = some b → keep id = true →
    r'.get? (rank keep id) = some (withoutRefs file b)
  full {id : BindingId} : id < r.slots.size → (r.get? id).isSome = true
  size : r'.slots.size = rank keep r.slots.size
  references : r'.references = (r.references.erase file).mapValues (surviving keep)

namespace Trimmed

variable {file : Path} {keep : BindingId → Bool} {r r' : Registry} {b : Binding} {f : Binding → Binding}
variable (same : ∀ b, (f b).definition = b.definition)

theorem empty (file : Path) (keep : BindingId → Bool) : Trimmed file keep .empty .empty where
  kept live := by simp at live
  bindings live := by simp at live
  full inRange := by simp [Registry.empty] at inRange
  size := by simp [rank, Registry.empty]
  references := rfl

section

variable (trimmed : Trimmed file keep r r')
include trimmed

theorem origin {j : BindingId} {b' : Binding} (live : r'.get? j = some b') :
    ∃ id b, r.get? id = some b ∧ keep id = true ∧ rank keep id = j ∧ b' = withoutRefs file b := by
  have inRange := lt_size_of_get? live
  rw [trimmed.size] at inRange
  obtain ⟨id, before, kept, rfl⟩ := exists_rank_eq inRange
  obtain ⟨b, here⟩ := Option.isSome_iff_exists.mp (trimmed.full before)
  rw [trimmed.bindings here kept] at live
  exact ⟨id, b, here, kept, rfl, (Option.some.inj live).symm⟩

theorem change {s s' : Registry} {f g : BindingId → Binding → Binding}
    (first : ∀ id, s.get? id = (r.get? id).map (f id))
    (second : ∀ id, s'.get? id = (r'.get? id).map (g id)) (inFile : ∀ id b, isIn file (f id b) = isIn file b)
    (carried : ∀ id b, keep id = true → withoutRefs file (f id b) = g (rank keep id) (withoutRefs file b))
    (slots : s.slots.size = r.slots.size) (slots' : s'.slots.size = r'.slots.size)
    (references : s'.references = (s.references.erase file).mapValues (surviving keep)) :
    Trimmed file keep s s' where
  kept {id b} live := by
    rw [first] at live
    obtain ⟨old, here, rfl⟩ := Option.map_eq_some_iff.mp live
    rw [trimmed.kept here, inFile]
  bindings {id b} live kept := by
    rw [first] at live
    obtain ⟨old, here, rfl⟩ := Option.map_eq_some_iff.mp live
    rw [second, trimmed.bindings here kept, Option.map_some, carried id old kept]
  full inRange := by
    rw [first, Option.isSome_map]
    exact trimmed.full (slots ▸ inRange)
  size := by rw [slots, slots', trimmed.size]
  references := references

theorem modify_kept {id : BindingId} (kept : keep id = true)
    (carried : ∀ b, withoutRefs file (f b) = f (withoutRefs file b)) :
    Trimmed file keep (r.modify id f same) (r'.modify (rank keep id) f same) := by
  refine trimmed.change (get?_modify same r id) (get?_modify same r' (rank keep id)) (fun j b => ?_)
    (fun j b other => ?_) (size_modify ..) (size_modify ..) trimmed.references
  · split
    · exact isIn_congr (same b) file
    · rfl
  · simp only [rank_inj kept other]
    split
    · exact carried b
    · rfl

theorem modify_gone {id : BindingId} (gone : keep id = false) :
    Trimmed file keep (r.modify id f same) r' := by
  refine trimmed.change (g := fun _ b => b) (get?_modify same r id) (fun _ => by simp)
    (fun j b => ?_) (fun j b other => ?_) (size_modify ..) rfl trimmed.references
  · split
    · exact isIn_congr (same b) file
    · rfl
  · rw [if_neg]
    rintro rfl
    rw [gone] at other
    cases other

theorem putRef_kept {node : NodeRef} (other : node.file.same file = false) (ids : List BindingId) :
    Trimmed file keep (r.putRef node ids) (r'.putRef node (survivors keep ids)) := by
  refine trimmed.change (get?_putRef r node ids) (get?_putRef r' node (survivors keep ids))
    (fun id b => ?_) (fun id b kept => ?_) (size_putRef ..) (size_putRef ..) ?_
  · split
    · exact isIn_congr (Binding.definition_addRef node b) file
    · rfl
  · simp only [rank_mem_survivors kept]
    split
    · rw [withoutRefs_addRef, other]
      rfl
    · rfl
  · rw [references_putRef, references_putRef, trimmed.references,
      PathMap.erase_update_other (Path.same_comm.trans other)]
    exact (PathMap.mapValues_update (surviving_refer keep node ids) (r.references.erase file)
      node.file []).symm

theorem putRef_gone {node : NodeRef} (inside : node.file.same file = true) (ids : List BindingId) :
    Trimmed file keep (r.putRef node ids) r' := by
  refine trimmed.change (g := fun _ b => b) (get?_putRef r node ids) (fun _ => by simp)
    (fun id b => ?_) (fun id b _ => ?_) (size_putRef ..) rfl ?_
  · split
    · exact isIn_congr (Binding.definition_addRef node b) file
    · rfl
  · split
    · rw [withoutRefs_addRef, inside]
      rfl
    · rfl
  · rw [references_putRef, PathMap.erase_update_same (Path.same_comm.trans inside)]
    exact trimmed.references

end

/-! ## Registering -/

theorem find?_of_none (trimmed : Trimmed file keep r r') {d : Definition} (new : r.find? d = none) :
    r'.find? d = none := by
  refine find?_eq_none_iff.mpr fun j there => ?_
  obtain ⟨b', live, same⟩ := definition?_eq_some.mp there
  obtain ⟨id, old, here, -, -, rfl⟩ := trimmed.origin live
  exact find?_eq_none_iff.mp new id (definition?_eq_some.mpr ⟨old, here, same⟩)

theorem find?_of_some (trimmed : Trimmed file keep r r') (other : isIn file b = false) {id : BindingId}
    (found : r.find? b.definition = some id) : r'.find? b.definition = some (rank keep id) := by
  obtain ⟨old, here, same⟩ := definition?_eq_some.mp (find?_eq_some_iff.mp found)
  have kept : keep id = true := by rw [trimmed.kept here, isIn_congr same, other]; rfl
  exact find?_eq_some_iff.mpr (definition?_eq_some.mpr ⟨_, trimmed.bindings here kept, same⟩)

section

variable (trimmed : Trimmed file keep r r') (new : r.find? b.definition = none)
include trimmed

theorem kept_push (fresh : keep r.slots.size = !isIn file b) {id : BindingId} {x : Binding}
    (live : (r.push b new).get? id = some x) : keep id = !isIn file x := by
  rw [get?_push] at live
  split at live
  · rename_i same
    cases live
    rw [same, fresh]
  · exact trimmed.kept live

theorem full_push {id : BindingId} (inRange : id < (r.push b new).slots.size) :
    ((r.push b new).get? id).isSome = true := by
  rw [get?_push]
  split
  · rfl
  · rename_i differs
    rw [size_push] at inRange
    exact trimmed.full (Nat.lt_of_le_of_ne (Nat.le_of_lt_succ inRange) differs)

theorem push_gone (inside : isIn file b = true) (fresh : keep r.slots.size = false) :
    Trimmed file keep (r.push b new) r' where
  kept := trimmed.kept_push new (by rw [fresh, inside]; rfl)
  bindings {id x} live kept := by
    rw [get?_push] at live
    split at live
    · rename_i same
      rw [same, fresh] at kept
      cases kept
    · exact trimmed.bindings live kept
  full := trimmed.full_push new
  size := by
    rw [size_push, rank_succ, fresh, trimmed.size]
    rfl
  references := trimmed.references

theorem push_kept (unused : b.refs = []) (other : isIn file b = false) (fresh : keep r.slots.size = true) :
    Trimmed file keep (r.push b new) (r'.push b (trimmed.find?_of_none new)) where
  kept := trimmed.kept_push new (by rw [fresh, other]; rfl)
  bindings {id x} live kept := by
    have blank : withoutRefs file b = b := by
      unfold withoutRefs
      rw [unused, List.filter_nil, ← unused]
    rw [get?_push] at live ⊢
    simp only [trimmed.size, rank_inj kept fresh]
    split at live
    · rename_i same
      cases live
      rw [if_pos same, blank]
    · rename_i differs
      rw [if_neg differs]
      exact trimmed.bindings live kept
  full := trimmed.full_push new
  size := by
    rw [size_push, size_push, rank_succ, fresh, trimmed.size]
    rfl
  references := trimmed.references

end

theorem register_kept (trimmed : Trimmed file keep r r') (unused : b.refs = []) (other : isIn file b = false)
    (kept : keep (r.register b).1 = true) :
    (r'.register b).1 = rank keep (r.register b).1 ∧
      Trimmed file keep (r.register b).2 (r'.register b).2 := by
  obtain new | ⟨id, found⟩ := (r.find? b.definition).eq_none_or_eq_some
  · rw [register_of_none new] at kept ⊢
    rw [register_of_none (trimmed.find?_of_none new)]
    exact ⟨trimmed.size, trimmed.push_kept new unused other kept⟩
  · rw [register_of_some found] at kept ⊢
    rw [register_of_some (trimmed.find?_of_some other found)]
    exact ⟨rfl, trimmed.modify_kept (Binding.definition_mergeType b.ty) kept fun _ => rfl⟩

theorem register_gone (trimmed : Trimmed file keep r r') (inside : isIn file b = true)
    (gone : keep (r.register b).1 = false) : Trimmed file keep (r.register b).2 r' := by
  obtain new | ⟨id, found⟩ := (r.find? b.definition).eq_none_or_eq_some
  · rw [register_of_none new] at gone ⊢
    exact trimmed.push_gone new inside gone
  · rw [register_of_some found] at gone ⊢
    exact trimmed.modify_gone (Binding.definition_mergeType b.ty) gone

/-! ## Removing the file -/

theorem get?_removeFile (trimmed : Trimmed file keep r r') (id : BindingId) :
    (r.removeFile file).2.get? id = if keep id then r'.get? (rank keep id) else none := by
  rw [Registry.get?_removeFile]
  cases live : r.get? id with
  | some b =>
    have kept := trimmed.kept live
    cases inside : isIn file b with
    | true =>
      rw [inside] at kept
      simp [kept, inside]
    | false =>
      rw [inside] at kept
      have there := trimmed.bindings live kept
      simp [kept, inside, there]
  | none =>
    have absent : r'.get? (rank keep id) = none := by
      refine Option.eq_none_iff_forall_ne_some.mpr fun b here => ?_
      have inRange := lt_size_of_get? here
      rw [trimmed.size] at inRange
      have known := trimmed.full (Nat.lt_of_count_lt_count inRange)
      rw [live] at known
      cases known
    simp [absent]

theorem all_removeFile (trimmed : Trimmed file keep r r') :
    (r.removeFile file).2.all.map (fun e => (rank keep e.1, e.2)) = r'.all := by
  have slots : (r.removeFile file).2.slots.size = r.slots.size := Array.size_map
  unfold all
  rw [trimmed.size, range_rank, slots, survivors, List.filterMap_map, List.filterMap_filter,
    List.map_filterMap]
  apply List.filterMap_congr
  intro id _
  rw [trimmed.get?_removeFile, Option.map_map]
  by_cases kept : keep id = true <;> simp [kept]
  rfl

theorem references_removeFile (trimmed : Trimmed file keep r r')
    (removed : ∀ id, (r.idsIn file).contains id = !keep id) :
    (r.removeFile file).2.references.mapValues (List.map fun e => (e.1, e.2.map (rank keep))) =
      r'.references := by
  rw [trimmed.references]
  unfold Registry.removeFile
  simp only [PathMap.mapValues, removed, Bool.not_not, List.map_map, PathMap.mk.injEq]
  apply List.map_congr_left
  intro entry _
  simp [surviving, survivors]

end Trimmed

end Registry

/-! ## Scopes without a file -/

namespace Scopes

/-- The second scopes are what the first would be if only some bindings had been entered. An entry
without bindings is like no entry. -/
structure Trimmed (keep : BindingId → Bool) (s s' : Scopes) : Prop where
  size : s'.size = s.size
  parent (i : ScopeId) : (s'.get i).parent = (s.get i).parent
  entries (i : ScopeId) (key : Key) :
    ((s'.get i).table.lookup key).getD [] = Registry.survivors keep (((s.get i).table.lookup key).getD [])

namespace Trimmed

variable {keep : BindingId → Bool} {s s' : Scopes} {removed : List BindingId}

theorem empty (keep : BindingId → Bool) : Trimmed keep {} {} where
  size := rfl
  parent _ := rfl
  entries i key := by
    have vacant : (get {} i).table = [] := by
      cases i <;> rfl
    rw [vacant]
    rfl

section

variable (trimmed : Trimmed keep s s')
include trimmed

theorem push (kind : ScopeKind) (parent : Option ScopeId) (path : String) :
    Trimmed keep (s.push kind parent path).2 (s'.push kind parent path).2 where
  size := by rw [size_push, size_push, trimmed.size]
  parent i := by
    rw [get_push, get_push, trimmed.size]
    split
    · rfl
    · exact trimmed.parent i
  entries i key := by
    rw [get_push, get_push, trimmed.size]
    split
    · rfl
    · exact trimmed.entries i key

theorem enter_kept {id : BindingId} (kept : keep id = true) (scope : ScopeId) (name : String) (tier : Tier) :
    Trimmed keep (s.enter scope name tier id) (s'.enter scope name tier (Registry.rank keep id)) where
  size := by rw [size_enter, size_enter, trimmed.size]
  parent i := by
    rw [get_enter, get_enter, trimmed.size]
    split
    · rw [Scope.add_eq, Scope.add_eq (s.get i)]
      exact trimmed.parent i
    · exact trimmed.parent i
  entries i key := by
    rw [get_enter, get_enter, trimmed.size]
    split
    · rw [Scope.lookup_add, Scope.lookup_add]
      split
      · rw [Option.getD_some, Option.getD_some, Registry.survivors_addNew, if_pos kept, trimmed.entries]
      · exact trimmed.entries i key
    · exact trimmed.entries i key

theorem enter_gone {id : BindingId} (gone : keep id = false) (scope : ScopeId) (name : String) (tier : Tier) :
    Trimmed keep (s.enter scope name tier id) s' where
  size := by rw [size_enter, trimmed.size]
  parent i := by
    rw [get_enter]
    split
    · rw [Scope.add_eq]
      exact trimmed.parent i
    · exact trimmed.parent i
  entries i key := by
    rw [get_enter]
    split
    · rw [Scope.lookup_add]
      split
      · rw [Option.getD_some, Registry.survivors_addNew, gone, trimmed.entries]
        rfl
      · exact trimmed.entries i key
    · exact trimmed.entries i key

theorem local?_purge (gone : ∀ id, removed.contains id = !keep id) (i : ScopeId) (name : String)
    (tier : Tier) :
    ((s.purge removed).local? i name tier).map (List.map (Registry.rank keep)) = s'.local? i name tier := by
  unfold local?
  rw [Scope.local?_eq, Scope.local?_eq, trimmed.entries, get_purge]
  simp only [Scope.lookup_map_values, gone, Bool.not_not]
  cases (s.get i).table.lookup ⟨name, tier⟩ with
  | none => rfl
  | some ids =>
    simp only [Option.map_some, Option.getD_some, Registry.survivors, List.isEmpty_map]
    split <;> rfl

theorem chain_purge (removed : List BindingId) (i : ScopeId) : (s.purge removed).chain i = s'.chain i :=
  (chain_congr (fun i => by rw [get_purge, trimmed.parent]) i).symm

theorem lookup?_purge (gone : ∀ id, removed.contains id = !keep id) (i : ScopeId) (name : String)
    (tier : Tier) :
    ((s.purge removed).lookup? i name tier).map (List.map (Registry.rank keep)) = s'.lookup? i name tier := by
  unfold lookup?
  rw [List.map_findSome?, trimmed.chain_purge]
  congr 1
  funext j
  exact trimmed.local?_purge gone j name tier

theorem defining?_purge (gone : ∀ id, removed.contains id = !keep id) (i : ScopeId) (name : String) :
    (s.purge removed).defining? i name = s'.defining? i name := by
  unfold defining?
  rw [trimmed.chain_purge]
  congr 1
  funext j
  rw [← trimmed.local?_purge gone j name .object, Option.isSome_map]

end

end Trimmed

end Scopes

end RubyInfer
