import RubyInfer.Session.Target
import RubyInfer.Proofs.Store.Definition
import RubyInfer.Proofs.Store.Scopes

/-!
# Local variables

An assignment to a local name looks for it from the inside out, through blocks and into the body
around them but not past it, and makes it where the assignment stands if it is in none of these
scopes. A reference looks along the whole chain. Both take the nearest scope that has the name, so
what has been assigned is what a reference finds.
-/

namespace RubyInfer

namespace Scopes

variable {s : Scopes} {scope i : ScopeId} {name : String} {tier : Tier}

def Nearby (s : Scopes) (scope : ScopeId) (inner : List ScopeId) (i : ScopeId) : Prop :=
  (∃ outer, s.chain scope = inner ++ i :: outer) ∧ ∀ j ∈ inner, (s.get j).kind = .block

theorem nearby_self (s : Scopes) (scope : ScopeId) : s.Nearby scope [] scope := by
  refine ⟨?_, List.forall_mem_nil _⟩
  unfold chain chainWithin
  cases (s.get scope).parent with
  | none => exact ⟨[], rfl⟩
  | some p => exact ⟨s.chainWithin scope p, rfl⟩

theorem local?_enter_self (there : i < s.size) (name : String) (tier : Tier) (id : BindingId) :
    (s.enter i name tier id).local? i name tier =
      some (Registry.addNew ((s.local? i name tier).getD []) id) := by
  unfold Scopes.local?
  rw [get_enter, if_pos ⟨rfl, there⟩, Scope.local?_eq, Scope.lookup_add, if_pos rfl, Option.getD_some]
  have full (ids : List BindingId) : (Registry.addNew ids id).isEmpty = false := by
    rw [List.isEmpty_eq_false_iff]
    exact List.ne_nil_of_mem (Registry.mem_addNew.mpr (.inr rfl))
  rw [full, Scope.local?_eq]
  cases (s.get i).table.lookup ⟨name, tier⟩ with
  | none => rfl
  | some ids => cases ids <;> rfl

theorem local?_enter_of_ne {k : Key} (other : k ≠ ⟨name, tier⟩) (s : Scopes) (i j : ScopeId)
    (id : BindingId) :
    (s.enter i name tier id).local? j k.name k.tier = s.local? j k.name k.tier := by
  unfold Scopes.local?
  rw [get_enter]
  split
  · rw [Scope.local?_eq, Scope.local?_eq, Scope.lookup_add, if_neg other]
  · rfl

theorem get_enter_of_ne {j : ScopeId} (other : j ≠ i) (s : Scopes) (name : String) (tier : Tier)
    (id : BindingId) :
    (s.enter i name tier id).get j = s.get j := by
  rw [get_enter, if_neg fun same => other same.1.symm]

theorem chain_enter (s : Scopes) (i : ScopeId) (name : String) (tier : Tier) (id : BindingId)
    (scope : ScopeId) :
    (s.enter i name tier id).chain scope = s.chain scope := by
  refine chain_congr (fun j => ?_) scope
  rw [get_enter]
  split
  · rw [Scope.add_eq]
  · rfl

theorem lookup?_enter {inner outer : List ScopeId} (there : i < s.size)
    (way : s.chain scope = inner ++ i :: outer)
    (absent : ∀ j ∈ inner, s.local? j name tier = none) (apart : i ∉ inner) (id : BindingId) :
    (s.enter i name tier id).lookup? scope name tier =
      some (Registry.addNew ((s.local? i name tier).getD []) id) := by
  have skipped : inner.findSome? (fun j => (s.enter i name tier id).local? j name tier) = none := by
    rw [List.findSome?_eq_none_iff]
    intro j mem
    have other : j ≠ i := fun same => apart (same ▸ mem)
    unfold Scopes.local?
    rw [get_enter_of_ne other]
    exact absent j mem
  unfold lookup?
  rw [chain_enter, way, List.findSome?_append, skipped, Option.none_or,
    List.findSome?_cons_of_isSome, local?_enter_self there]
  rw [local?_enter_self there]
  rfl

end Scopes

namespace Session

variable {s : Session} {scope : ScopeId} {name : String}

theorem blockChain_split {chain inner : List ScopeId} {i : ScopeId} :
    (∃ outer, s.blockChain chain = inner ++ i :: outer) ↔
      (∃ outer, chain = inner ++ i :: outer) ∧ ∀ j ∈ inner, (s.scopes.get j).kind = .block := by
  induction inner generalizing chain with
  | nil =>
    cases chain with
    | nil => simp [blockChain]
    | cons j rest =>
      unfold blockChain
      split <;> simp
  | cons j inner ih =>
    cases chain with
    | nil => simp [blockChain]
    | cons k rest =>
      unfold blockChain
      split
      · rename_i block
        simp only [List.cons_append, List.cons.injEq, exists_and_left, ih, List.forall_mem_cons]
        constructor
        · rintro ⟨rfl, way, blocks⟩
          exact ⟨⟨rfl, way⟩, block, blocks⟩
        · rintro ⟨⟨rfl, way⟩, -, blocks⟩
          exact ⟨rfl, way, blocks⟩
      · rename_i body
        simp only [List.cons_append, List.cons.injEq, List.forall_mem_cons]
        constructor
        · rintro ⟨outer, -, none⟩
          simp at none
        · rintro ⟨⟨outer, rfl, -⟩, block, -⟩
          exact absurd block body

/-- Some block or body around the scope has the name, and the name is not that of the block
argument. -/
def HasLocal (s : Session) (scope : ScopeId) (name : String) : Prop :=
  name ≠ blockName ∧ ∃ inner i, s.scopes.Nearby scope inner i ∧ (s.scopes.local? i name .object).isSome

theorem localScope_nearest (s : Session) (scope : ScopeId) (name : String) :
    ∃ inner, s.scopes.Nearby scope inner (s.localScope scope name) ∧
      (∀ j ∈ inner, s.scopes.local? j name .object = none) ∧
      s.localScope scope name ∉ inner ∧
      (s.HasLocal scope name → (s.scopes.local? (s.localScope scope name) name .object).isSome) ∧
      (¬ s.HasLocal scope name → s.localScope scope name = scope) := by
  unfold localScope
  simp only []
  cases found : (s.blockChain (s.scopes.chain scope)).find? fun id =>
      (s.scopes.local? id name .object).isSome && name ≠ blockName with
  | some i =>
    obtain ⟨has, inner, outer, way, before⟩ := List.find?_eq_some_iff_append.mp found
    obtain ⟨here, plain⟩ := Bool.and_eq_true_iff.mp has
    have plain := of_decide_eq_true plain
    have near := blockChain_split.mp ⟨outer, way⟩
    have absent : ∀ j ∈ inner, s.scopes.local? j name .object = none := fun j mem => by
      simpa [plain] using before j mem
    refine ⟨inner, near, absent, fun mem => ?_, fun _ => here, fun nowhere =>
      absurd ⟨plain, inner, i, near, here⟩ nowhere⟩
    rw [absent i mem] at here
    exact Bool.false_ne_true here
  | none =>
    have nowhere : ¬ s.HasLocal scope name := by
      rintro ⟨plain, inner, j, near, here⟩
      obtain ⟨outer, way⟩ := blockChain_split.mpr near
      have mem : j ∈ s.blockChain (s.scopes.chain scope) :=
        way ▸ List.mem_append_right inner List.mem_cons_self
      exact List.find?_eq_none.mp found j mem (by simp [here, plain])
    exact ⟨[], s.scopes.nearby_self scope, List.forall_mem_nil _, List.not_mem_nil, fun has =>
      absurd has nowhere, fun _ => rfl⟩

theorem localScope_lt (there : scope < s.scopes.size) (name : String) :
    s.localScope scope name < s.scopes.size := by
  obtain ⟨-, -, -, -, nearest, itself⟩ := s.localScope_nearest scope name
  by_cases has : s.HasLocal scope name
  · obtain ⟨ids, found⟩ := Option.isSome_iff_exists.mp (nearest has)
    exact Scopes.lt_size_of_local? found
  · rw [itself has]
    exact there

theorem scopes_bind {t : Session} {i : ScopeId} {id : BindingId} {tier : Tier} {node : NodeRef}
    {body : Span} {kind : BindingKind}
    {ty : Ty} (bound : s.bind i tier name node body kind ty = (id, t)) :
    t.scopes = s.scopes.enter i name tier id ∧ t.registry.definition? id = some ⟨node, kind, name⟩ := by
  cases bound
  exact ⟨rfl, Registry.definition?_register_self ..⟩

/-- **Local assignment.** A local name is bound in a scope that is reached through blocks only: the
nearest one that has the name, or the scope of the assignment if none has it or if the name is that
of the block argument. A reference from there finds it, and nothing else in any scope changes. -/
theorem bindName_local {t : Session} {node : NodeRef} {ty : Ty} {kind : BindingKind}
    (there : scope < s.scopes.size) (assigned : s.bindName node name .plain ty kind scope = t) :
    ∃ inner i id, s.scopes.Nearby scope inner i ∧
      s.bind i .object name node (s.span node) kind ty = (id, t) ∧
      t.registry.definition? id = some ⟨node, kind, name⟩ ∧
      (∃ ids, t.scopes.lookup? scope name .object = some ids ∧
      t.scopes.local? i name .object = some ids ∧ id ∈ ids ∧
        (s.scopes.local? i name .object).getD [] <+: ids) ∧
      (∀ j, j ≠ i → t.scopes.get j = s.scopes.get j) ∧
      (∀ k : Key, k ≠ ⟨name, .object⟩ → t.scopes.local? i k.name k.tier = s.scopes.local? i k.name k.tier) ∧
      (s.HasLocal scope name → (s.scopes.local? i name .object).isSome ∧ ∀ j ∈ inner,
        s.scopes.local? j name .object = none) ∧
      (¬ s.HasLocal scope name → i = scope) := by
  obtain ⟨inner, near, absent, apart, nearest, itself⟩ := s.localScope_nearest scope name
  have ⟨⟨outer, way⟩, _⟩ := near
  have inside := localScope_lt there name
  obtain ⟨id, bound⟩ : ∃ id,
      s.bind (s.localScope scope name) .object name node (s.span node) kind ty = (id, t) :=
    ⟨_, Prod.ext rfl assigned⟩
  obtain ⟨scopes, defined⟩ := scopes_bind bound
  refine ⟨inner, s.localScope scope name, id, near, bound, defined, ?_, fun j other => ?_, fun k other => ?_,
    fun has => ⟨nearest has, absent⟩, itself⟩
  · have found := Scopes.lookup?_enter inside way absent apart id
    have here := Scopes.local?_enter_self inside name .object id
    rw [← scopes] at found here
    exact ⟨_, found, here, Registry.mem_addNew.mpr (.inr rfl), Registry.prefix_addNew ..⟩
  · exact (congrArg (Scopes.get · j) scopes).trans (Scopes.get_enter_of_ne other ..)
  · exact (congrArg (Scopes.local? · _ k.name k.tier) scopes).trans (Scopes.local?_enter_of_ne other ..)

/-- Two blocks in a method. Both the method and the global scope have an `x`; that of the outer
block is gone and has left an empty entry. -/
def nestedBlocks : Session :=
  let s : Session := {
    options := { cacheDir := ⟨"cache"⟩, diskCache := false }
    files := {}
    cache := { dumper := .content }
    scopes := ⟨#[⟨.global, none, "", []⟩, ⟨.function, some 0, "f", []⟩, ⟨.block, some 1, "f", []⟩,
        ⟨.block, some 2, "f", []⟩]⟩ }
  let assign (s : Session) (scope : ScopeId) : Session :=
    (s.bind scope .object "x" ⟨0, ⟨"/a.rb"⟩, scope⟩ default .variable .unknown).2
  let s := assign (assign (assign s 0) 1) 2
  { s with scopes := s.scopes.purge [2] }

theorem bindName_local_nested :
    ∃ t, nestedBlocks.bindName ⟨0, ⟨"/a.rb"⟩, 4⟩ "x" .plain .unknown .variable 3 = t ∧
      nestedBlocks.HasLocal 3 "x" ∧
      t.scopes.lookup? 3 "x" .object = t.scopes.local? 1 "x" .object ∧
      (∃ ids id, t.scopes.lookup? 3 "x" .object = some ids ∧ id ∈ ids ∧
        t.registry.definition? id = some ⟨⟨0, ⟨"/a.rb"⟩, 4⟩, .variable, "x"⟩) ∧
      ∀ j, j ≠ 1 → t.scopes.get j = nestedBlocks.scopes.get j := by
  have chain : nestedBlocks.scopes.chain 3 = [3, 2, 1, 0] := by decide +kernel
  have has : nestedBlocks.HasLocal 3 "x" := by
    refine ⟨by decide, [3, 2], 1, ⟨⟨[0], chain⟩, ?_⟩, by decide +kernel⟩
    decide +kernel
  have inside : 3 < nestedBlocks.scopes.size := by decide +kernel
  obtain ⟨t, assigned⟩ : ∃ t,
      nestedBlocks.bindName ⟨0, ⟨"/a.rb"⟩, 4⟩ "x" .plain .unknown .variable 3 = t := ⟨_, rfl⟩
  obtain ⟨inner, i, id, ⟨⟨outer, way⟩, blocks⟩, -, defined, ⟨ids, found, here, mem, -⟩, others, -,
      nearest, -⟩ :=
    bindName_local inside assigned
  obtain ⟨present, -⟩ := nearest has
  rw [chain] at way
  -- The inner blocks have no `x`, and the method is no block.
  obtain rfl : i = 1 := by
    rcases inner with _ | ⟨a, _ | ⟨b, _ | ⟨c, rest⟩⟩⟩
    · cases way
      exact absurd present (by decide +kernel)
    · cases way
      exact absurd present (by decide +kernel)
    · cases way
      rfl
    · obtain rfl : 1 = c := congrArg (fun ids : List ScopeId => ids.getD 2 0) way
      exact absurd (blocks 1 (by simp)) (by decide +kernel)
  exact ⟨t, assigned, has, found.trans here.symm, ⟨ids, id, found, mem, defined⟩, others⟩

end Session

end RubyInfer
