import RubyInfer.Proofs.Recursion
import RubyInfer.Proofs.Session.Runs

/-!
# Look-ups come to an end

Modules mixed into each other and base classes may run in circles, and a look-up follows them as
long as it finds places where it has not been. It comes to an end, with what the bounded definition
gives: every step leaves fewer places. The scopes around a scope have smaller numbers than it.
-/

namespace RubyInfer.Session

variable (s : Session) {bound : Nat}

/-! ## Modules -/

def moduleStep (name : String) (tiers : List Tier)
    (again : List ModuleId × ModuleId → Option (List BindingId) × List ModuleId) :
    List ModuleId × ModuleId → Option (List BindingId) × List ModuleId
  | (seen, m) =>
    if seen.contains m then (none, seen)
    else
      match s.tableEntry? (s.moduleRecord m).scope name tiers with
      | some ids => (some ids, m :: seen)
      | none => firstVisited (fun seen m => again (seen, m)) (m :: seen) (s.moduleRecord m).mixins

theorem firstVisited_congr {α β : Type} {ask other : List α → α → Option β × List α} (good : List α → Prop)
    (same : ∀ seen x, good seen → other seen x = ask seen x)
    (kept : ∀ seen x, good seen → good (ask seen x).2) {seen : List α}
    (start : good seen) (xs : List α) : firstVisited other seen xs = firstVisited ask seen xs := by
  induction xs generalizing seen with
  | nil => rfl
  | cons x xs ih =>
    have next := kept seen x start
    unfold firstVisited
    rw [same seen x start]
    split
    · rfl
    · rename_i answer
      rw [answer] at next
      exact ih next

theorem subset_firstVisited {α β : Type} {ask : List α → α → Option β × List α}
    (grows : ∀ seen x, seen ⊆ (ask seen x).2)
    (seen xs : List α) : seen ⊆ (firstVisited ask seen xs).2 := by
  induction xs generalizing seen with
  | nil => exact List.Subset.refl seen
  | cons x xs ih =>
    have next := grows seen x
    unfold firstVisited
    split
    · rename_i answer
      rw [answer] at next
      exact next
    · rename_i answer
      rw [answer] at next
      exact List.Subset.trans next (ih _)

theorem subset_moduleMemberWithin (name : String) (tiers : List Tier) (bound : Nat)
    (seen : List ModuleId) (m : ModuleId) :
    seen ⊆ (s.moduleMemberWithin name tiers bound seen m).2 := by
  induction bound generalizing seen m with
  | zero => exact List.Subset.refl seen
  | succ bound ih =>
    have next := List.subset_cons_self m seen
    unfold moduleMemberWithin
    split
    · exact List.Subset.refl seen
    · dsimp only
      split
      · exact next
      · exact List.Subset.trans next (subset_firstVisited ih ..)

theorem mixins_of_size_le {s : Session} {m : ModuleId} (absent : s.modules.size ≤ m) :
    (s.moduleRecord m).mixins = [] := by
  simp [moduleRecord, Array.getElem?_eq_none absent]
  rfl

theorem settles_moduleMember (name : String) (tiers : List Tier) {seen : List ModuleId} (m : ModuleId)
    (enough : unseen s.modules.size seen < bound) :
    Settles (s.moduleStep name tiers) (seen, m) (s.moduleMemberWithin name tiers bound seen m) := by
  induction bound generalizing seen m with
  | zero => exact absurd enough (Nat.not_lt_zero _)
  | succ bound ih =>
    refine .intro (fun q => unseen s.modules.size q.1 < bound)
      (fun q => s.moduleMemberWithin name tiers bound q.1 q.2)
      (fun q fewer => ih q.2 fewer) fun other agrees => ?_
    unfold moduleStep moduleMemberWithin
    dsimp only
    split
    · rfl
    · rename_i new
      rw [List.contains_iff_mem] at new
      cases s.tableEntry? (s.moduleRecord m).scope name tiers with
      | some ids => rfl
      | none =>
        by_cases there : m < s.modules.size
        · have fewer : unseen s.modules.size (m :: seen) < bound :=
            Nat.lt_of_lt_of_le (unseen_cons_lt there new) (Nat.le_of_lt_succ enough)
          apply firstVisited_congr (unseen s.modules.size · < bound)
            (fun before x fewer => agrees (before, x) fewer) ?_ fewer
          intro before x fewer
          exact Nat.lt_of_le_of_lt (unseen_le _ (s.subset_moduleMemberWithin name tiers bound before x)) fewer
        · rw [mixins_of_size_le (Nat.le_of_not_lt there)]
          rfl

/-! ## Classes -/

def classStep (side : Side) (name : String)
    (again : List ClassId × ClassId → Option (List BindingId) × List ClassId) :
    List ClassId × ClassId → Option (List BindingId) × List ClassId
  | (seen, c) =>
    if seen.contains c then (none, seen)
    else
      match s.stationMember? side c name with
      | some ids => (some ids, c :: seen)
      | none =>
        match (s.classRecord c).base with
        | some b => again (c :: seen, b)
        | none => (none, c :: seen)

theorem lt_size_of_base {s : Session} {c b : ClassId} (based : (s.classRecord c).base = some b) :
    c < s.classes.size := by
  by_contra absent
  rw [classRecord, Array.getElem?_eq_none (Nat.le_of_not_lt absent)] at based
  cases based

theorem settles_classMember (side : Side) (name : String) {seen : List ClassId} (c : ClassId)
    (enough : unseen s.classes.size seen < bound) :
    Settles (s.classStep side name) (seen, c) (s.classMemberWithin side name bound seen c) := by
  induction bound generalizing seen c with
  | zero => exact absurd enough (Nat.not_lt_zero _)
  | succ bound ih =>
    refine .intro (fun q => unseen s.classes.size q.1 < bound)
      (fun q => s.classMemberWithin side name bound q.1 q.2)
      (fun q fewer => ih q.2 fewer) fun other agrees => ?_
    unfold classStep classMemberWithin
    dsimp only
    split
    · rfl
    · rename_i new
      rw [List.contains_iff_mem] at new
      cases s.stationMember? side c name with
      | some ids => rfl
      | none =>
        cases based : (s.classRecord c).base with
        | none => rfl
        | some b =>
          apply agrees (c :: seen, b)
          exact Nat.lt_of_lt_of_le (unseen_cons_lt (lt_size_of_base based) new) (Nat.le_of_lt_succ enough)

/-! ## Scopes -/

def chainStep (again : ScopeId → List ScopeId) (scope : ScopeId) : List ScopeId :=
  match (s.scopes.get scope).parent with
  | some p => scope :: again p
  | none => [scope]

theorem parent_lt {s : Session} (nested : Nested s.scopes s.functions) {scope p : ScopeId}
    (around : (s.scopes.get scope).parent = some p) : p < scope := by
  cases held : s.scopes.arena[scope]? with
  | none => simp [Scopes.get, held] at around
  | some found => exact nested.parents held p (by simpa [Scopes.get, held] using around)

theorem settles_chain (nested : Nested s.scopes s.functions) (scope : ScopeId) (enough : scope < bound) :
    Settles s.chainStep scope (s.scopes.chainWithin bound scope) := by
  induction bound generalizing scope with
  | zero => exact absurd enough (Nat.not_lt_zero _)
  | succ bound ih =>
    refine .intro (· < bound) (s.scopes.chainWithin bound) (fun p fewer => ih p fewer) fun other agrees => ?_
    unfold chainStep Scopes.chainWithin
    cases around : (s.scopes.get scope).parent with
    | none => rfl
    | some p =>
      have fewer := Nat.lt_of_lt_of_le (parent_lt nested around) (Nat.le_of_lt_succ enough)
      exact congrArg (scope :: ·) (agrees p fewer)

end RubyInfer.Session
