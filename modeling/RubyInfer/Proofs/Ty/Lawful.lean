import Mathlib.Data.Finset.Dedup
import Mathlib.Data.Finset.Insert
import Mathlib.Data.String.Basic
import RubyInfer.Proofs.Ty.Semilattice

/-!
# The order of types is total

`Before` says by rules when a type comes before another: by its form, or within one form by the
first part that differs. Comparing two types decides this order at every depth (`cmp_eq_lt_iff`). It
is lawful on all types, whether or not they are canonical, so every set of types has one ascending
list (`existsUnique_ascending`), and types are kept by it.
-/

namespace RubyInfer.Ty

inductive Before : Ty → Ty → Prop
  | str {a b : Option String} (less : a < b) : Before (.str a) (.str b)
  | symbol {a b : Option String} (less : a < b) : Before (.symbol a) (.symbol b)
  | elem {a b : Ty} (as bs : List String) (before : Before a b) : Before (.list a as) (.list b bs)
  | literals (a : Ty) {as bs : List String} (less : as < bs) : Before (.list a as) (.list a bs)
  | key {a b : Ty} (c d : Ty) (before : Before a b) : Before (.dict a c) (.dict b d)
  | value (a : Ty) {c d : Ty} (before : Before c d) : Before (.dict a c) (.dict a d)
  | function {i j : FunctionId} (less : i < j) : Before (.function i) (.function j)
  | classObj {i j : ClassId} (less : i < j) : Before (.classObj i) (.classObj j)
  | moduleObj {i j : ModuleId} (less : i < j) : Before (.moduleObj i) (.moduleObj j)
  | inst {i j : ClassId} (less : i < j) : Before (.inst i) (.inst j)
  | union {as bs : List Ty} (less : List.Lex Before as bs) : Before (.union as) (.union bs)
  | form {a b : Ty} (less : a.rank < b.rank) : Before a b

/-! ## Comparing -/

theorem cmpLiteral_eq_lt_iff {a b : Option String} : cmpLiteral a b = .lt ↔ a < b := by
  cases a <;> cases b <;> simp [cmpLiteral, compare_lt_iff_lt]

theorem cmpTexts_eq_lt_iff {as bs : List String} : cmpTexts as bs = .lt ↔ as < bs := by
  induction as generalizing bs with
  | nil => cases bs <;> simp [cmpTexts]
  | cons a as ih => cases bs <;> simp [cmpTexts, Ordering.then_eq_lt, ih, List.cons_lt_cons_iff,
      compare_lt_iff_lt]

section Forms

variable {a b c d : Ty}

theorem before_iff_of_rank_ne (differ : a.rank ≠ b.rank) : Before a b ↔ a.rank < b.rank := by
  refine ⟨fun before => ?_, .form⟩
  cases before with
  | form less => exact less
  | _ => exact absurd rfl differ

theorem before_list_iff {as bs : List String} :
    Before (.list a as) (.list b bs) ↔ Before a b ∨ a = b ∧ as < bs := by
  constructor
  · intro before
    cases before with
    | form less => exact absurd less (Nat.lt_irrefl _)
    | elem _ _ before => exact .inl before
    | literals _ less => exact .inr ⟨rfl, less⟩
  · rintro (before | ⟨rfl, less⟩)
    · exact .elem as bs before
    · exact .literals a less

theorem before_dict_iff : Before (.dict a c) (.dict b d) ↔ Before a b ∨ a = b ∧ Before c d := by
  constructor
  · intro before
    cases before with
    | form less => exact absurd less (Nat.lt_irrefl _)
    | key _ _ before => exact .inl before
    | value _ before => exact .inr ⟨rfl, before⟩
  · rintro (before | ⟨rfl, before⟩)
    · exact .key c d before
    · exact .value a before

theorem before_union_iff {as bs : List Ty} : Before (.union as) (.union bs) ↔ List.Lex Before as bs := by
  refine ⟨fun before => ?_, .union⟩
  cases before with
  | form less => exact absurd less (Nat.lt_irrefl _)
  | union less => exact less

theorem cmp_eq_lt_iff_of (alike : a.rank = b.rank → (cmp a b = .lt ↔ Before a b)) :
    cmp a b = .lt ↔ Before a b := by
  by_cases same : a.rank = b.rank
  · exact alike same
  · rw [cmp_of_rank_ne same, before_iff_of_rank_ne same, Nat.compare_eq_lt]

end Forms

mutual
theorem cmp_eq_lt_iff : ∀ a b : Ty, cmp a b = .lt ↔ Before a b
  | .unknown, b | .nil, b | .bool, b | .num, b => cmp_eq_lt_iff_of fun alike => by
      cases b <;> cases alike
      refine ⟨fun less => (by cases less), fun before => ?_⟩
      cases before with
      | form less => exact absurd less (Nat.lt_irrefl _)
  | .str a, b | .symbol a, b => cmp_eq_lt_iff_of fun alike => by
      cases b <;> cases alike
      rw [cmp, cmpLiteral_eq_lt_iff]
      constructor
      · intro less
        constructor
        exact less
      · intro before
        cases before with
        | form less => exact absurd less (Nat.lt_irrefl _)
        | _ => assumption
  | .list a as, b => cmp_eq_lt_iff_of fun alike => by
      cases b <;> cases alike
      rw [cmp, Ordering.then_eq_lt, cmp_eq_iff, cmp_eq_lt_iff a, cmpTexts_eq_lt_iff, before_list_iff]
  | .dict a c, b => cmp_eq_lt_iff_of fun alike => by
      cases b <;> cases alike
      rw [cmp, Ordering.then_eq_lt, cmp_eq_iff, cmp_eq_lt_iff a, cmp_eq_lt_iff c, before_dict_iff]
  | .function i, b | .classObj i, b | .moduleObj i, b | .inst i, b => cmp_eq_lt_iff_of fun alike => by
      cases b <;> cases alike
      rw [cmp, Nat.compare_eq_lt]
      constructor
      · intro less
        constructor
        exact less
      · intro before
        cases before with
        | form less => exact absurd less (Nat.lt_irrefl _)
        | _ => assumption
  | .union as, b => cmp_eq_lt_iff_of fun alike => by
      cases b <;> cases alike
      rw [cmp, cmpAll_eq_lt_iff as, before_union_iff]

theorem cmpAll_eq_lt_iff : ∀ as bs : List Ty, cmpAll as bs = .lt ↔ List.Lex Before as bs
  | [], [] => by simp [cmpAll, List.not_lex_nil]
  | [], _ :: _ => by simp [cmpAll]
  | _ :: _, [] => by simp [cmpAll, List.not_lex_nil]
  | a :: as, b :: bs => by
      rw [cmpAll, Ordering.then_eq_lt, cmp_eq_iff, cmp_eq_lt_iff a, cmpAll_eq_lt_iff as,
        List.cons_lex_cons_iff]
end

/-! ## Laws -/

instance : Std.LawfulEqCmp cmp where
  compare_self := (cmp_eq_iff _ _).mpr rfl
  eq_of_compare := (cmp_eq_iff _ _).mp

instance : Std.TransCmp cmp where
  eq_swap {a b} := (cmp_swap b a).symm
  isLE_trans {a b c} first second := by
    rw [Ordering.isLE_iff_eq_lt_or_eq_eq, cmp_eq_iff] at first second ⊢
    obtain less | rfl := first
    · obtain less' | rfl := second
      · exact .inl (cmp_trans less less')
      · exact .inl less
    · exact second

theorem existsUnique_ascending (set : Finset Ty) : ∃! ts : List Ty, Ascending ts ∧ ∀ t, t ∈ ts ↔ t ∈ set := by
  refine ⟨sorted set.toList, ⟨ascending_sorted _, fun t => ?_⟩, fun ts ⟨ascending, same⟩ => ?_⟩
  · rw [mem_sorted, Finset.mem_toList]
  · refine ascending_ext ascending (ascending_sorted _) fun t => ?_
    rw [same, mem_sorted, Finset.mem_toList]

/-- **Types are totally ordered.** A comparison comes out less exactly where the rules put the first
type before the second one, equal exactly for identical types, and greater the other way round. So
the order is reflexive, antisymmetric, transitive and total. Every set of types therefore has one
ascending list, which is the one that unions are made of. -/
theorem types_totally_ordered :
    (∀ a b : Ty, (cmp a b = .lt ↔ Before a b) ∧ (cmp a b = .eq ↔ a = b) ∧ (cmp a b = .gt ↔ Before b a)) ∧
    (∀ a : Ty, (cmp a a).isLE) ∧
    (∀ a b : Ty, (cmp a b).isLE → (cmp b a).isLE → a = b) ∧
    (∀ a b c : Ty, (cmp a b).isLE → (cmp b c).isLE → (cmp a c).isLE) ∧
    (∀ a b : Ty, (cmp a b).isLE ∨ (cmp b a).isLE) ∧
    (∀ set : Finset Ty, ∃! ts : List Ty, Ascending ts ∧ ∀ t, t ∈ ts ↔ t ∈ set) ∧
    (∀ ts : List Ty, Ascending (sorted ts) ∧ ∀ t, t ∈ sorted ts ↔ t ∈ ts) ∧
    ∀ t : Ty, t.Canonical → Ascending t.members := by
  refine ⟨fun a b => ?_, fun a => Std.ReflCmp.isLE_rfl, fun a b below above => ?_, fun a b c =>
    Std.TransCmp.isLE_trans, fun a b => ?_,
    existsUnique_ascending, fun ts => ⟨ascending_sorted ts, fun t => mem_sorted⟩, fun t canonical => ?_⟩
  · exact ⟨cmp_eq_lt_iff a b, cmp_eq_iff a b, cmp_eq_gt_iff.trans (cmp_eq_lt_iff b a)⟩
  · exact (cmp_eq_iff a b).mp (Std.OrientedCmp.isLE_antisymm below above)
  · rw [← cmp_swap a b]
    cases cmp a b <;> simp
  · cases t with
    | union ms =>
      rw [Canonical] at canonical
      exact canonical.2.1
    | _ => exact List.pairwise_singleton ..

def tableOf (literal : String) (value : Ty) : Ty :=
  .dict (.list (.union [.nil, .str (some literal)]) []) value

theorem types_totally_ordered_tables :
    (tableOf "a" .num).Canonical ∧ (tableOf "b" .nil).Canonical ∧
      (Ty.union [.num, tableOf "b" .bool]).Canonical ∧
    Before (tableOf "a" .num) (tableOf "b" .nil) ∧
    (cmp (tableOf "a" .num) (.union [.num, tableOf "b" .bool])).isLE ∧
    Ascending (Ty.union [.num, tableOf "b" .bool]).members ∧
    ∃! ts : List Ty, Ascending ts ∧ ∀ t, t ∈ ts ↔ t ∈ ({tableOf "b" .nil, tableOf "a" .num} : Finset Ty) := by
  obtain ⟨rules, -, -, trans, -, sets, -, members⟩ := types_totally_ordered
  have canonical : (Ty.union [.num, tableOf "b" .bool]).Canonical := by decide +kernel
  have first : cmp (tableOf "a" .num) (tableOf "b" .nil) = .lt := by decide +kernel
  have second : cmp (tableOf "b" .nil) (.union [.num, tableOf "b" .bool]) = .lt := by decide +kernel
  refine ⟨by decide +kernel, by
    decide +kernel, canonical, (rules _ _).1.mp first, ?_, members _ canonical, sets _⟩
  exact trans _ (tableOf "b" .nil) _ (by simp [first]) (by simp [second])

end RubyInfer.Ty
