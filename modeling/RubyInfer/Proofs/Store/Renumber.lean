import Mathlib.Data.Nat.Count
import RubyInfer.Proofs.Store.Linked

/-!
# Numbering bindings anew

When only some bindings are kept, each of them gets the number of kept ones before it. The order
stays, and no two kept bindings get the same number, so lists of bindings, the reference index and
the entries of scopes grow in the new numbering just as they do in the old one.
-/

namespace RubyInfer

namespace Registry

def rank (keep : BindingId → Bool) (id : BindingId) : BindingId := Nat.count (keep · = true) id

def survivors (keep : BindingId → Bool) (ids : List BindingId) : List BindingId :=
  (ids.filter keep).map (rank keep)

def surviving (keep : BindingId → Bool) (index : List (NodeRef × List BindingId)) :
    List (NodeRef × List BindingId) :=
  index.map fun e => (e.1, survivors keep e.2)

variable {keep : BindingId → Bool}

theorem rank_succ (keep : BindingId → Bool) (n : BindingId) :
    rank keep (n + 1) = rank keep n + if keep n then 1 else 0 :=
  Nat.count_succ _ n

theorem rank_lt_rank {i j : BindingId} (kept : keep i = true) (before : i < j) : rank keep i < rank keep j :=
  Nat.count_strict_mono kept before

theorem rank_inj {i j : BindingId} (left : keep i = true) (right : keep j = true) :
    rank keep i = rank keep j ↔ i = j :=
  ⟨Nat.count_injective left right, congrArg (rank keep)⟩

theorem range_rank (keep : BindingId → Bool) (n : BindingId) :
    List.range (rank keep n) = survivors keep (List.range n) := by
  induction n with
  | zero => simp [rank, survivors]
  | succ n ih =>
    rw [rank_succ, List.range_succ]
    unfold survivors at ih ⊢
    by_cases kept : keep n = true
    · simp [kept, List.range_succ, ih]
    · simp [kept, ih]

theorem exists_rank_eq {m n : BindingId} (inRange : m < rank keep n) :
    ∃ i < n, keep i = true ∧ rank keep i = m := by
  have mem : m ∈ survivors keep (List.range n) := by
    rw [← range_rank]
    exact List.mem_range.mpr inRange
  obtain ⟨i, there, renamed⟩ := List.mem_map.mp mem
  obtain ⟨before, kept⟩ := List.mem_filter.mp there
  exact ⟨i, List.mem_range.mp before, kept, renamed⟩

theorem rank_mem_survivors {id : BindingId} (kept : keep id = true) {ids : List BindingId} :
    rank keep id ∈ survivors keep ids ↔ id ∈ ids := by
  constructor
  · intro mem
    obtain ⟨i, there, same⟩ := List.mem_map.mp mem
    obtain ⟨inList, other⟩ := List.mem_filter.mp there
    rw [← (rank_inj other kept).mp same]
    exact inList
  · intro mem
    exact List.mem_map_of_mem (List.mem_filter.mpr ⟨mem, kept⟩)

/-! ## Growing lists -/

theorem survivors_addNew (keep : BindingId → Bool) (out : List BindingId) (id : BindingId) :
    survivors keep (addNew out id) = if keep id then addNew (survivors keep out) (rank keep id) else
      survivors keep out := by
  by_cases kept : keep id = true
  · have there : (survivors keep out).contains (rank keep id) = out.contains id := by
      rw [Bool.eq_iff_iff, List.contains_iff_mem, List.contains_iff_mem]
      exact rank_mem_survivors kept
    unfold addNew
    rw [if_pos kept, there]
    split
    · rfl
    · simp [survivors, kept]
  · unfold addNew
    split <;> simp [survivors, kept]

theorem survivors_foldl_addNew (keep : BindingId → Bool) (ids out : List BindingId) :
    survivors keep (ids.foldl addNew out) = (survivors keep ids).foldl addNew (survivors keep out) := by
  induction ids generalizing out with
  | nil => rfl
  | cons id ids ih =>
    rw [List.foldl_cons, ih, survivors_addNew]
    by_cases kept : keep id = true <;> simp [survivors, kept]

theorem surviving_refer (keep : BindingId → Bool) (node : NodeRef) (ids : List BindingId)
    (index : List (NodeRef × List BindingId)) :
    surviving keep (refer node ids index) = refer node (survivors keep ids) (surviving keep index) := by
  have there : (surviving keep index).any (fun e => e.1 = node) = index.any (fun e => e.1 = node) := by
    simp [surviving, List.any_map, Function.comp_def]
  unfold refer
  rw [there]
  split
  · simp only [surviving, List.map_map]
    apply List.map_congr_left
    intro e _
    by_cases same : e.1 = node <;> simp [same, survivors_foldl_addNew]
  · unfold surviving
    rw [List.map_append, List.map_singleton, survivors_foldl_addNew]
    rfl

end Registry

end RubyInfer
