import Mathlib.Data.Finset.Card
import Mathlib.Data.Finset.Range

/-!
# Recursion without a bound

A recursion is given by one step, which answers a question from the answers to other questions.
`Settles` says that it comes to an end: the questions that are asked on the way settle first.
Nothing bounds it from outside.
-/

namespace RubyInfer

variable {Q A B : Type}

inductive Settles (step : (Q → A) → Q → A) : Q → A → Prop
  | intro {q : Q} {a : A} (asked : Q → Prop) (answers : Q → A) (before : ∀ p, asked p →
      Settles step p (answers p))
      (enough : ∀ other : Q → A, (∀ p, asked p → other p = answers p) → step other q = a) : Settles step q a

def Rests (step : (Q → A) → Q → A) (f : (Q → A) → B) (b : B) : Prop :=
  ∃ (asked : Q → Prop) (answers : Q → A), (∀ p, asked p → Settles step p (answers p)) ∧
    ∀ other : Q → A, (∀ p, asked p → other p = answers p) → f other = b

variable {step : (Q → A) → Q → A}

theorem Settles.unique {q : Q} {a b : A} (first : Settles step q a) (second : Settles step q b) : a = b := by
  induction first generalizing b with
  | @intro q a asked answers _ enough ih =>
    cases second with
    | intro asked' answers' before' enough' =>
      classical
      -- One function gives the answers of both sides, since they agree where both ask.
      let both (p : Q) : A := if asked p then answers p else answers' p
      have left : step both q = a := enough both fun p there => if_pos there
      have right : step both q = b := by
        refine enough' both fun p there => ?_
        by_cases here : asked p
        · exact (if_pos here).trans (ih p here (before' p there))
        · exact if_neg here
      exact left.symm.trans right

theorem Settles.iff {q : Q} {a : A} (settles : Settles step q a) (b : A) : Settles step q b ↔ b = a :=
  ⟨fun other => other.unique settles, fun same => same ▸ settles⟩

/-! ## Searches that note where they have been -/

def unseen (n : Nat) (seen : List Nat) : Nat := (Finset.range n \ seen.toFinset).card

theorem unseen_le (n : Nat) {seen more : List Nat} (grown : seen ⊆ more) : unseen n more ≤ unseen n seen := by
  apply Finset.card_le_card
  intro i mem
  rw [Finset.mem_sdiff, List.mem_toFinset] at mem ⊢
  exact ⟨mem.1, fun old => mem.2 (grown old)⟩

theorem unseen_cons_lt {n m : Nat} {seen : List Nat} (inRange : m < n) (new : m ∉ seen) :
    unseen n (m :: seen) < unseen n seen := by
  apply Finset.card_lt_card
  refine ⟨fun i mem => ?_, fun all => ?_⟩
  · rw [Finset.mem_sdiff, List.mem_toFinset] at mem ⊢
    exact ⟨mem.1, fun old => mem.2 (List.mem_cons_of_mem m old)⟩
  · have still : m ∈ Finset.range n \ (m :: seen).toFinset := all (by simp [inRange, new])
    simp at still

theorem unseen_le_size (n : Nat) (seen : List Nat) : unseen n seen ≤ n := by
  have all := Finset.card_le_card (Finset.sdiff_subset (s := Finset.range n) (t := seen.toFinset))
  rwa [Finset.card_range] at all

end RubyInfer
