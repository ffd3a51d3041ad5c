import RubyInfer.Store.Scopes

/-!
# What scopes hold after a change

A scope's kind, parent and path never change; `enter` lengthens one entry of one table. `Holds` says
that a binding stands in some entry, which is all that a look-up can give.
-/

namespace RubyInfer

theorem Registry.mem_addNew {ids : List BindingId} {id x : BindingId} :
    x ∈ addNew ids id ↔ x ∈ ids ∨ x = id := by
  unfold addNew
  split
  · rename_i there
    simp only [List.contains_iff_mem] at there
    exact ⟨Or.inl, fun h => h.elim (fun mem => mem) fun same => same ▸ there⟩
  · simp

theorem Registry.prefix_addNew (ids : List BindingId) (id : BindingId) : ids <+: addNew ids id := by
  unfold addNew
  split
  · exact List.prefix_rfl
  · exact List.prefix_append ..

theorem nodup_append_new {α : Type} {xs : List α} {x : α} (distinct : xs.Nodup) (new : x ∉ xs) :
    (xs ++ [x]).Nodup := by
  refine List.nodup_append.mpr ⟨distinct, by simp, fun y mem z last same => new ?_⟩
  rw [← List.mem_singleton.mp last, ← same]
  exact mem

theorem Registry.nodup_addNew {ids : List BindingId} (distinct : ids.Nodup) (id : BindingId) :
    (addNew ids id).Nodup := by
  unfold addNew
  split
  · exact distinct
  · rename_i new
    exact nodup_append_new distinct (by simpa using new)

theorem Registry.mem_foldl_addNew {ids out : List BindingId} {x : BindingId} :
    x ∈ ids.foldl addNew out ↔ x ∈ out ∨ x ∈ ids := by
  induction ids generalizing out with
  | nil => simp
  | cons id ids ih => rw [List.foldl_cons, ih, mem_addNew, List.mem_cons, or_assoc]

theorem Registry.nodup_foldl_addNew {out : List BindingId} (distinct : out.Nodup) (ids : List BindingId) :
    (ids.foldl addNew out).Nodup := by
  induction ids generalizing out with
  | nil => exact distinct
  | cons id ids ih => exact ih (nodup_addNew distinct id)

namespace Scope

theorem add_eq (s : Scope) (key : Key) (id : BindingId) :
    s.add key id = { s with table := (s.add key id).table } := by
  unfold add
  split <;> rfl

theorem lookup_cons_eq (k : Key) (e : Key × List BindingId) (table : List (Key × List BindingId)) :
    (e :: table).lookup k = if k = e.1 then some e.2 else table.lookup k := by
  obtain ⟨key, ids⟩ := e
  by_cases here : k = key
  · simp [here]
  · have differs : (k == key) = false := by simpa using here
    simp [List.lookup_cons, here, differs]

theorem lookup_map_entry (table : List (Key × List BindingId)) (key k : Key)
    (f : List BindingId → List BindingId) :
    (table.map fun e => if e.1 = key then (e.1, f e.2) else e).lookup k =
      if k = key then (table.lookup k).map f else table.lookup k := by
  induction table with
  | nil => simp
  | cons e table ih =>
    rw [List.map_cons, lookup_cons_eq, lookup_cons_eq, ih]
    by_cases changed : e.1 = key <;> by_cases here : k = e.1 <;> by_cases asked : k = key <;> simp_all

theorem lookup_add (s : Scope) (key : Key) (id : BindingId) (k : Key) :
    (s.add key id).table.lookup k =
      if k = key then some (Registry.addNew ((s.table.lookup k).getD []) id) else s.table.lookup k := by
  unfold add
  split
  · rename_i present
    refine (lookup_map_entry s.table key k (Registry.addNew · id)).trans ?_
    split
    · rename_i same
      subst same
      have found : (s.table.lookup k).isSome = true := by
        rw [List.lookup_isSome_iff]
        obtain ⟨e, mem, here⟩ := List.any_eq_true.mp present
        exact ⟨e, mem, beq_iff_eq.mpr (of_decide_eq_true here).symm⟩
      obtain ⟨ids, entry⟩ := Option.isSome_iff_exists.mp found
      simp [entry]
    · rfl
  · rename_i absent
    refine List.lookup_append.trans ?_
    rw [lookup_cons_eq]
    split
    · rename_i same
      subst same
      have none : s.table.lookup k = none := by
        rw [List.lookup_eq_none_iff]
        intro e mem
        rw [Bool.not_eq_true, List.any_eq_false] at absent
        have other := absent e mem
        rw [decide_eq_true_eq] at other
        exact bne_iff_ne.mpr (Ne.symm other)
      simp [none, Registry.addNew]
    · simp

theorem local?_eq (s : Scope) (name : String) (tier : Tier) :
    s.local? name tier =
      if ((s.table.lookup ⟨name, tier⟩).getD []).isEmpty then none else
        some ((s.table.lookup ⟨name, tier⟩).getD []) := by
  unfold local?
  cases s.table.lookup ⟨name, tier⟩ with
  | none => rfl
  | some ids => cases ids <;> rfl

theorem lookup_map_values (table : List (Key × List BindingId))
    (f : List BindingId → List BindingId) (k : Key) :
    (table.map fun e => (e.1, f e.2)).lookup k = (table.lookup k).map f := by
  induction table with
  | nil => rfl
  | cons e table ih =>
    rw [List.map_cons, lookup_cons_eq, lookup_cons_eq, ih]
    split <;> rfl

theorem mem_table_add {s : Scope} {key : Key} {id : BindingId} {e : Key × List BindingId}
    (mem : e ∈ (s.add key id).table) :
    e ∈ s.table ∨ e = (key, [id]) ∨ ∃ ids, (key, ids) ∈ s.table ∧ e = (key, Registry.addNew ids id) := by
  unfold add at mem
  split at mem
  · obtain ⟨old, there, rfl⟩ := List.mem_map.mp mem
    split
    · rename_i same
      exact .inr (.inr ⟨old.2, same ▸ there, by rw [same]⟩)
    · exact .inl there
  · obtain there | new := List.mem_append.mp mem
    · exact .inl there
    · exact .inr (.inl (List.mem_singleton.mp new))

theorem exists_mem_table_add {s : Scope} {e : Key × List BindingId} (mem : e ∈ s.table) (key : Key)
    (id : BindingId) :
    ∃ e' ∈ (s.add key id).table, ∀ x ∈ e.2, x ∈ e'.2 := by
  unfold add
  split
  · refine ⟨_, List.mem_map_of_mem mem, fun x inside => ?_⟩
    split
    · exact Registry.mem_addNew.mpr (.inl inside)
    · exact inside
  · exact ⟨e, List.mem_append_left _ mem, fun _ inside => inside⟩

theorem mem_add_self (s : Scope) (key : Key) (id : BindingId) : ∃ e ∈ (s.add key id).table, id ∈ e.2 := by
  have entry := s.lookup_add key id key
  rw [if_pos rfl, List.lookup_eq_some_iff] at entry
  obtain ⟨before, after, table, -⟩ := entry
  exact ⟨_, by rw [table]; exact List.mem_append_right _ List.mem_cons_self,
    Registry.mem_addNew.mpr (.inr rfl)⟩

theorem mem_of_local? {s : Scope} {name : String} {tier : Tier} {ids : List BindingId}
    (found : s.local? name tier = some ids) :
    (⟨name, tier⟩, ids) ∈ s.table := by
  obtain ⟨entry, -⟩ := Option.filter_eq_some_iff.mp found
  obtain ⟨before, after, table, -⟩ := List.lookup_eq_some_iff.mp entry
  rw [table]
  exact List.mem_append_right _ List.mem_cons_self

end Scope

namespace Scopes

variable {s : Scopes} {ids : List BindingId} {name : String} {tier : Tier} {i : ScopeId}

@[simp]
theorem size_enter (s : Scopes) (scope : ScopeId) (name : String) (tier : Tier) (id : BindingId) :
    (s.enter scope name tier id).size = s.size := by
  simp [enter, size]

@[simp]
theorem size_push (s : Scopes) (kind : ScopeKind) (parent : Option ScopeId) (path : String) :
    (s.push kind parent path).2.size = s.size + 1 := by
  simp [push, size]

@[simp]
theorem size_purge (s : Scopes) (removed : List BindingId) : (s.purge removed).size = s.size := by
  simp [purge, size]

theorem getElem?_enter (s : Scopes) (scope : ScopeId) (name : String) (tier : Tier) (id : BindingId)
    (i : ScopeId) :
    (s.enter scope name tier id).arena[i]? = s.arena[i]?.map fun sc => if scope = i then
      sc.add ⟨name, tier⟩ id else sc := by
  simp only [enter, Array.getElem?_modify]
  split <;> simp

theorem getElem?_push (s : Scopes) (kind : ScopeKind) (parent : Option ScopeId) (path : String)
    (i : ScopeId) :
    (s.push kind parent path).2.arena[i]? = if i = s.size then some ⟨kind, parent, path, []⟩ else
      s.arena[i]? :=
  Array.getElem?_push

theorem getElem?_purge (s : Scopes) (removed : List BindingId) (i : ScopeId) :
    (s.purge removed).arena[i]? =
      s.arena[i]?.map fun sc =>
        { sc with table := sc.table.map fun e =>
          (e.1, e.2.filter fun id => !removed.contains id) } := by
  simp [purge]

theorem get_enter (s : Scopes) (scope : ScopeId) (name : String) (tier : Tier) (id : BindingId)
    (i : ScopeId) :
    (s.enter scope name tier id).get i = if scope = i ∧
      i < s.size then (s.get i).add ⟨name, tier⟩ id else s.get i := by
  unfold get
  rw [getElem?_enter]
  cases here : s.arena[i]? with
  | none =>
    have outside : ¬ i < s.size := Nat.not_lt.mpr (Array.getElem?_eq_none_iff.mp here)
    simp [outside]
  | some sc =>
    have inRange : i < s.size := (Array.getElem?_eq_some_iff.mp here).1
    simp [inRange]

theorem get_push (s : Scopes) (kind : ScopeKind) (parent : Option ScopeId) (path : String) (i : ScopeId) :
    (s.push kind parent path).2.get i = if i = s.size then ⟨kind, parent, path, []⟩ else s.get i := by
  unfold get
  rw [getElem?_push]
  split <;> rfl

theorem get_purge (s : Scopes) (removed : List BindingId) (i : ScopeId) :
    (s.purge removed).get i =
      { s.get i with table := (s.get i).table.map fun e =>
        (e.1, e.2.filter fun id => !removed.contains id) } := by
  unfold get
  rw [getElem?_purge]
  cases s.arena[i]? <;> rfl

theorem chain_congr {s s' : Scopes} (parent : ∀ i, (s'.get i).parent = (s.get i).parent) (i : ScopeId) :
    s'.chain i = s.chain i := by
  have within : ∀ bound i, s'.chainWithin bound i = s.chainWithin bound i := by
    intro bound
    induction bound with
    | zero => exact fun _ => rfl
    | succ bound ih =>
      intro i
      unfold chainWithin
      rw [parent]
      cases (s.get i).parent with
      | none => rfl
      | some p => exact congrArg (i :: ·) (ih p)
  exact within (i + 1) i

def Holds (s : Scopes) (id : BindingId) : Prop := ∃ (i : ScopeId) (sc : Scope),
    s.arena[i]? = some sc ∧ ∃ e ∈ sc.table, id ∈ e.2

theorem getElem?_of_local? (found : s.local? i name tier = some ids) :
    ∃ sc, s.arena[i]? = some sc ∧ (⟨name, tier⟩, ids) ∈ sc.table := by
  have mem := Scope.mem_of_local? found
  unfold get at mem
  cases here : s.arena[i]? with
  | none => simp [here] at mem
  | some sc => exact ⟨sc, rfl, by simpa [here] using mem⟩

theorem lt_size_of_local? (found : s.local? i name tier = some ids) : i < s.size := by
  obtain ⟨sc, here, -⟩ := getElem?_of_local? found
  exact (Array.getElem?_eq_some_iff.mp here).1

theorem holds_of_local? (found : s.local? i name tier = some ids) : ∀ id ∈ ids, s.Holds id := by
  intro id mem
  obtain ⟨sc, here, entry⟩ := getElem?_of_local? found
  exact ⟨i, sc, here, _, entry, mem⟩

theorem holds_of_lookup? (found : s.lookup? i name tier = some ids) : ∀ id ∈ ids, s.Holds id := by
  obtain ⟨j, -, here⟩ := List.exists_of_findSome?_eq_some found
  exact holds_of_local? here

theorem holds_enter_self {scope : ScopeId} (inRange : scope < s.size) (name : String) (tier : Tier)
    (id : BindingId) :
    (s.enter scope name tier id).Holds id := by
  obtain ⟨sc, here⟩ : ∃ sc, s.arena[scope]? = some sc := ⟨_, Array.getElem?_eq_getElem inRange⟩
  exact ⟨scope, _, by rw [getElem?_enter, here, Option.map_some, if_pos rfl], sc.mem_add_self ⟨name, tier⟩ id⟩

theorem Holds.enter {x : BindingId} (held : s.Holds x) (scope : ScopeId) (name : String)
    (tier : Tier) (id : BindingId) :
    (s.enter scope name tier id).Holds x := by
  obtain ⟨i, sc, here, e, entry, mem⟩ := held
  refine ⟨i, _, by rw [getElem?_enter, here, Option.map_some], ?_⟩
  split
  · obtain ⟨e', entry', kept⟩ := Scope.exists_mem_table_add entry ⟨name, tier⟩ id
    exact ⟨e', entry', kept x mem⟩
  · exact ⟨e, entry, mem⟩

theorem holds_enter {scope : ScopeId} {id x : BindingId}
    (held : (s.enter scope name tier id).Holds x) : s.Holds x ∨ x = id := by
  obtain ⟨i, sc', here, e, entry, mem⟩ := held
  rw [getElem?_enter] at here
  obtain ⟨sc, there, rfl⟩ := Option.map_eq_some_iff.mp here
  split at entry
  · obtain old | rfl | ⟨ids, old, rfl⟩ := Scope.mem_table_add entry
    · exact .inl ⟨i, sc, there, e, old, mem⟩
    · exact .inr (List.mem_singleton.mp mem)
    · exact (Registry.mem_addNew.mp mem).imp (fun inside => ⟨i, sc, there, _, old, inside⟩) fun same => same
  · exact .inl ⟨i, sc, there, e, entry, mem⟩

theorem holds_push {kind : ScopeKind} {parent : Option ScopeId} {path : String} {x : BindingId} :
    (s.push kind parent path).2.Holds x ↔ s.Holds x := by
  constructor
  · rintro ⟨i, sc, here, e, entry, mem⟩
    rw [getElem?_push] at here
    split at here
    · cases here
      simp at entry
    · exact ⟨i, sc, here, e, entry, mem⟩
  · rintro ⟨i, sc, here, e, entry, mem⟩
    have inRange : i < s.size := (Array.getElem?_eq_some_iff.mp here).1
    exact ⟨i, sc, by rw [getElem?_push, if_neg (Nat.ne_of_lt inRange), here], e, entry, mem⟩

end Scopes

end RubyInfer
