import RubyInfer.Proofs.Ty.Union

/-!
# The order of types

Two types of different form are ordered by their form alone (`cmp_of_rank_ne`), so every law of the
order is settled between types of one form, part by part. The ascending list that `sorted` makes of
some types is strictly ascending (`ascending_sorted`).
-/

namespace RubyInfer.Ty

theorem cmp_of_rank_ne {a b : Ty} (differ : a.rank ≠ b.rank) : cmp a b = compare a.rank b.rank := by
  cases a <;> cases b <;> first | rfl | exact absurd rfl differ

/-! ## Both ways -/

theorem cmpLiteral_swap (a b : Option String) : (cmpLiteral a b).swap = cmpLiteral b a := by
  cases a <;> cases b <;> simp only [cmpLiteral, Ordering.swap_lt, Ordering.swap_gt, Ordering.swap_eq]
  exact Std.OrientedCmp.eq_swap.symm

theorem cmpTexts_swap (as bs : List String) : (cmpTexts as bs).swap = cmpTexts bs as := by
  induction as generalizing bs with
  | nil => cases bs <;> rfl
  | cons a as ih =>
    cases bs with
    | nil => rfl
    | cons b bs => rw [cmpTexts, cmpTexts, Ordering.swap_then, ih, ← Std.OrientedCmp.eq_swap]

theorem cmp_swap_of {a b : Ty} (alike : a.rank = b.rank → (cmp a b).swap = cmp b a) :
    (cmp a b).swap = cmp b a := by
  by_cases same : a.rank = b.rank
  · exact alike same
  · rw [cmp_of_rank_ne same, cmp_of_rank_ne (Ne.symm same), Nat.compare_swap]

mutual
theorem cmp_swap : ∀ a b : Ty, (cmp a b).swap = cmp b a
  | .unknown, b | .nil, b | .bool, b | .num, b => cmp_swap_of fun alike => by
      cases b <;> cases alike
      rfl
  | .str a, b | .symbol a, b => cmp_swap_of fun alike => by
      cases b <;> cases alike
      exact cmpLiteral_swap ..
  | .list a as, b => cmp_swap_of fun alike => by
      cases b <;> cases alike
      rw [cmp, cmp, Ordering.swap_then, cmp_swap a, cmpTexts_swap]
  | .dict a a', b => cmp_swap_of fun alike => by
      cases b <;> cases alike
      rw [cmp, cmp, Ordering.swap_then, cmp_swap a, cmp_swap a']
  | .function a, b | .classObj a, b | .moduleObj a, b | .inst a, b => cmp_swap_of fun alike => by
      cases b <;> cases alike
      exact Nat.compare_swap ..
  | .union as, b => cmp_swap_of fun alike => by
      cases b <;> cases alike
      rw [cmp, cmp, cmpAll_swap as]

theorem cmpAll_swap : ∀ as bs : List Ty, (cmpAll as bs).swap = cmpAll bs as
  | [], [] | [], _ :: _ | _ :: _, [] => rfl
  | a :: as, b :: bs => by rw [cmpAll, cmpAll, Ordering.swap_then, cmp_swap a b, cmpAll_swap as bs]
end

theorem cmp_eq_gt_iff {a b : Ty} : cmp a b = .gt ↔ cmp b a = .lt := by
  rw [← cmp_swap b a, Ordering.swap_eq_gt]

/-! ## Transitivity -/

theorem then_lt_trans {first second both first' second' both' : Ordering} (left : first = .eq → both = second)
    (right : second = .eq → both = first) (trans : first = .lt → second = .lt → both = .lt)
    (trans' : first' = .lt → second' = .lt → both' = .lt) (less : first.then first' = .lt)
    (less' : second.then second' = .lt) :
    both.then both' = .lt := by
  cases first <;> cases second <;> simp_all

theorem cmpLiteral_trans {a b c : Option String} (less : cmpLiteral a b = .lt)
    (less' : cmpLiteral b c = .lt) :
    cmpLiteral a c = .lt := by
  cases a <;> cases b <;> cases c <;> simp only [cmpLiteral, reduceCtorEq] at less less' ⊢
  exact Std.TransCmp.lt_trans less less'

theorem cmpTexts_trans {as bs cs : List String} (less : cmpTexts as bs = .lt) (less' : cmpTexts bs cs = .lt) :
    cmpTexts as cs = .lt := by
  induction as generalizing bs cs with
  | nil => cases bs <;> cases cs <;> simp_all [cmpTexts]
  | cons a as ih =>
    cases bs with
    | nil => simp [cmpTexts] at less
    | cons b bs =>
      cases cs with
      | nil => simp [cmpTexts] at less'
      | cons c cs =>
        exact then_lt_trans Std.TransCmp.congr_left
          (fun same => (Std.TransCmp.congr_right same).symm) Std.TransCmp.lt_trans ih
          less less'

theorem rank_le_of_cmp {a b : Ty} (less : cmp a b = .lt) : a.rank ≤ b.rank := by
  by_cases same : a.rank = b.rank
  · exact Nat.le_of_eq same
  · rw [cmp_of_rank_ne same, Nat.compare_eq_lt] at less
    exact Nat.le_of_lt less

theorem cmp_trans_of {a b c : Ty} (less : cmp a b = .lt) (less' : cmp b c = .lt)
    (alike : a.rank = b.rank → a.rank = c.rank → cmp a c = .lt) : cmp a c = .lt := by
  have first := rank_le_of_cmp less
  have second := rank_le_of_cmp less'
  by_cases same : a.rank = c.rank
  · exact alike (by omega) same
  · rw [cmp_of_rank_ne same, Nat.compare_eq_lt]
    omega

theorem cmp_then_trans {a b c : Ty} (trans : cmp a b = .lt → cmp b c = .lt → cmp a c = .lt)
    {first second both : Ordering}
    (rest : first = .lt → second = .lt → both = .lt) (less : (cmp a b).then first = .lt)
    (less' : (cmp b c).then second = .lt) :
    (cmp a c).then both = .lt := by
  refine then_lt_trans (fun same => ?_) (fun same => ?_) trans rest less less'
  · rw [(cmp_eq_iff a b).mp same]
  · rw [(cmp_eq_iff b c).mp same]

mutual
theorem cmp_trans : ∀ {a b c : Ty}, cmp a b = .lt → cmp b c = .lt → cmp a c = .lt
  | .unknown, b, _, less, less' | .nil, b, _, less, less' | .bool, b, _, less, less' | .num, b, _,
      less, less' =>
    cmp_trans_of less less' fun alike _ => by
      cases b <;> cases alike
      cases less
  | .str _, b, c, less, less' | .symbol _, b, c, less, less' => cmp_trans_of less less' fun alike alike' => by
      cases b <;> cases alike
      cases c <;> cases alike'
      exact cmpLiteral_trans less less'
  | .list a _, b, c, less, less' => cmp_trans_of less less' fun alike alike' => by
      cases b <;> cases alike
      cases c <;> cases alike'
      exact cmp_then_trans (cmp_trans (a := a)) cmpTexts_trans less less'
  | .dict a d, b, c, less, less' => cmp_trans_of less less' fun alike alike' => by
      cases b <;> cases alike
      cases c <;> cases alike'
      exact cmp_then_trans (cmp_trans (a := a)) (cmp_trans (a := d)) less less'
  | .function _, b, c, less, less' | .classObj _, b, c, less, less' | .moduleObj _, b, c, less, less'
  | .inst _, b, c, less, less' => cmp_trans_of less less' fun alike alike' => by
      cases b <;> cases alike
      cases c <;> cases alike'
      exact Std.TransCmp.lt_trans (α := Nat) less less'
  | .union as, b, c, less, less' => cmp_trans_of less less' fun alike alike' => by
      cases b <;> cases alike
      cases c <;> cases alike'
      rw [cmp] at less less' ⊢
      exact cmpAll_trans less less'

theorem cmpAll_trans : ∀ {as bs cs : List Ty}, cmpAll as bs = .lt → cmpAll bs cs = .lt → cmpAll as cs = .lt
  | [], [], _, less, _ => by cases less
  | [], _ :: _, [], _, less' => by cases less'
  | [], _ :: _, _ :: _, _, _ => rfl
  | _ :: _, [], _, less, _ => by cases less
  | _ :: _, _ :: _, [], _, less' => by cases less'
  | a :: as, _ :: _, _ :: _, less, less' => cmp_then_trans (cmp_trans (a := a)) cmpAll_trans less less'
end

/-! ## Ascending lists -/

abbrev Ascending (ts : List Ty) : Prop := ts.Pairwise fun a b => cmp a b = .lt

theorem ascending_insertMember {ms : List Ty} (ascending : Ascending ms) (t : Ty) :
    Ascending (insertMember t ms) := by
  induction ms with
  | nil => exact List.pairwise_singleton ..
  | cons m ms ih =>
    obtain ⟨least, rest⟩ := List.pairwise_cons.mp ascending
    cases order : cmp t m with
    | lt =>
      rw [insertMember, order]
      refine List.pairwise_cons.mpr ⟨fun x mem => ?_, ascending⟩
      obtain rfl | later := List.mem_cons.mp mem
      · exact order
      · exact cmp_trans order (least x later)
    | eq =>
      rw [insertMember, order]
      exact ascending
    | gt =>
      rw [insertMember, order]
      refine List.pairwise_cons.mpr ⟨fun x mem => ?_, ih rest⟩
      obtain rfl | later := mem_insertMember.mp mem
      · exact cmp_eq_gt_iff.mp order
      · exact least x later

theorem ascending_sorted (ts : List Ty) : Ascending (sorted ts) := by
  have general (seen : List Ty) (ascending : Ascending seen) :
      Ascending (ts.foldl (fun ms t => insertMember t ms) seen) := by
    induction ts generalizing seen with
    | nil => exact ascending
    | cons t ts ih => exact ih _ (ascending_insertMember ascending t)
  exact general [] .nil

end RubyInfer.Ty
