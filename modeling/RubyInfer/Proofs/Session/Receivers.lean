import RubyInfer.Proofs.Session.Resolution

/-!
# Members of several types

A member is looked up for the members of a union one after the other, and classes that were seen for
one of them are passed over for the next. Among instances this loses nothing: a class that was seen
led to an answer that has been taken, or to none. Nor does it among class objects. But an instance
and a class object see a class from two sides, so where their look-ups pass the same class and would
be answered differently, the answer of the second is lost (`members_hidden`). Where this does not
happen the members of a union are those of its parts (`members_distribute`).
-/

namespace RubyInfer

namespace Registry

theorem foldl_addNew_of_subset {ids out : List BindingId} (there : ids ⊆ out) :
    ids.foldl addNew out = out := by
  induction ids with
  | nil => rfl
  | cons id ids ih =>
    rw [List.cons_subset] at there
    rw [List.foldl_cons, addNew_of_mem there.1, ih there.2]

theorem foldl_addNew_addNew (mid : List BindingId) (id : BindingId) (out : List BindingId) :
    (addNew mid id).foldl addNew out = addNew (mid.foldl addNew out) id := by
  by_cases old : id ∈ mid
  · rw [addNew_of_mem old, addNew_of_mem (mem_foldl_addNew.mpr (.inr old))]
  · rw [addNew_of_not_mem old, List.foldl_append]
    rfl

theorem foldl_addNew_foldl (ids mid out : List BindingId) :
    (ids.foldl addNew mid).foldl addNew out = ids.foldl addNew (mid.foldl addNew out) := by
  induction ids generalizing mid with
  | nil => rfl
  | cons id ids ih => rw [List.foldl_cons, ih, foldl_addNew_addNew, List.foldl_cons]

theorem foldl_addNew_eachOnce (ids out : List BindingId) :
    (eachOnce ids).foldl addNew out = ids.foldl addNew out :=
  foldl_addNew_foldl ids [] out

theorem mem_eachOnce {ids : List BindingId} {id : BindingId} : id ∈ eachOnce ids ↔ id ∈ ids := by
  simp [eachOnce, mem_foldl_addNew]

end Registry

namespace Session

open Registry

variable {s : Session} {side : Side} {name : String} {seen : List ClassId} {ids : List BindingId}
    {out : List BindingId} {ts : List Ty}
  {c : ClassId} {bound : Nat}

/-! ## One class after the other -/

inductive Passes (s : Session) (side : Side) (name : String) : ClassId → ClassId → Prop
  | here (c : ClassId) : Passes s side name c c
  | up {c b d : ClassId} (silent : s.stationMember? side c name = none)
      (based : (s.classRecord c).base = some b)
      (on : Passes s side name b d) : Passes s side name c d

def Answers (s : Session) (side : Side) (name : String) (c : ClassId) (ids : List BindingId) : Prop :=
  ∃ d, s.Passes side name c d ∧ s.stationMember? side d name = some ids

theorem Passes.trans {c d e : ClassId} (first : s.Passes side name c d)
    (second : s.Passes side name d e) : s.Passes side name c e := by
  induction first with
  | here => exact second
  | up silent based _ ih => exact .up silent based (ih second)

theorem Passes.answers_iff {c d : ClassId} (passes : s.Passes side name c d) :
    s.Answers side name c ids ↔ s.Answers side name d ids := by
  induction passes with
  | here => rfl
  | @up c b d silent based _ ih =>
    rw [← ih]
    constructor
    · rintro ⟨e, passes, found⟩
      cases passes with
      | here => rw [silent] at found; cases found
      | up _ based' on =>
        cases based.symm.trans based'
        exact ⟨e, on, found⟩
    · rintro ⟨e, passes, found⟩
      exact ⟨e, .up silent based passes, found⟩

theorem Answers.unique {ids ids' : List BindingId} (first : s.Answers side name c ids)
    (second : s.Answers side name c ids') :
    ids = ids' := by
  obtain ⟨d, passes, found⟩ := first
  obtain ⟨e, passes', found'⟩ := passes.answers_iff.mp second
  cases passes' with
  | here => exact Option.some.inj (found.symm.trans found')
  | up silent => rw [silent] at found; cases found

theorem not_answers_of_circle {c b : ClassId} (silent : s.stationMember? side c name = none)
    (based : (s.classRecord c).base = some b)
    (back : s.Passes side name b c) : ¬ s.Answers side name c ids := by
  rintro ⟨d, passes, found⟩
  induction passes generalizing b with
  | here => rw [silent] at found; cases found
  | @up c b' d _ based' on ih =>
    cases based.symm.trans based'
    cases back with
    | here => exact ih silent based (.here _) found
    | up silent' further on' => exact ih silent' further (on'.trans (.up silent based (.here _))) found

/-! ## What a look-up finds -/

theorem answers_of_classMemberWithin
    (found : (s.classMemberWithin side name bound seen c).1 = some ids) :
    s.Answers side name c ids := by
  induction bound generalizing seen c with
  | zero => cases found
  | succ bound ih =>
    rw [classMemberWithin] at found
    split at found
    · cases found
    · cases here : s.stationMember? side c name with
      | some own =>
        rw [here] at found
        exact ⟨c, .here c, here.trans found⟩
      | none =>
        rw [here] at found
        cases based : (s.classRecord c).base with
        | none => rw [based] at found; cases found
        | some b =>
          rw [based] at found
          exact (Passes.up here based (.here b)).answers_iff.mpr (ih found)

theorem seen_classMemberWithin {c y : ClassId} (mem : y ∈ (s.classMemberWithin side name bound seen c).2) :
    y ∈ seen ∨ s.Passes side name c y := by
  induction bound generalizing seen c with
  | zero => exact .inl mem
  | succ bound ih =>
    have here (mem : y ∈ c :: seen) : y ∈ seen ∨ s.Passes side name c y := by
      obtain rfl | old := List.mem_cons.mp mem
      · exact .inr (.here y)
      · exact .inl old
    rw [classMemberWithin] at mem
    split at mem
    · exact .inl mem
    · cases answer : s.stationMember? side c name with
      | some own =>
        rw [answer] at mem
        exact here mem
      | none =>
        rw [answer] at mem
        cases based : (s.classRecord c).base with
        | none =>
          rw [based] at mem
          exact here mem
        | some b =>
          rw [based] at mem
          obtain old | on := ih mem
          · exact here old
          · exact .inr (.up answer based on)

theorem missed_classMemberWithin (enough : unseen s.classes.size seen < bound)
    (none : (s.classMemberWithin side name bound seen c).1 = none) (answers : s.Answers side name c ids) :
    ∃ y ∈ seen, s.Passes side name c y := by
  induction bound generalizing seen c with
  | zero => exact absurd enough (Nat.not_lt_zero _)
  | succ bound ih =>
    rw [classMemberWithin] at none
    split at none
    · rename_i old
      exact ⟨c, List.contains_iff_mem.mp old, .here c⟩
    · rename_i new
      rw [List.contains_iff_mem] at new
      obtain ⟨d, passes, found⟩ := answers
      cases passes with
      | here => rw [found] at none; cases none
      | up silent based on =>
        rw [silent, based] at none
        have fewer := Nat.lt_of_lt_of_le (unseen_cons_lt (lt_size_of_base based) new)
          (Nat.le_of_lt_succ enough)
        obtain ⟨y, mem, passes⟩ := ih fewer none ⟨d, on, found⟩
        obtain rfl | old := List.mem_cons.mp mem
        · exact absurd ⟨d, .up silent based on, found⟩ (not_answers_of_circle silent based passes)
        · exact ⟨y, old, .up silent based passes⟩

def Side.receiver : Side → ClassId → Ty
  | .ofInstance, c => .inst c
  | .ofClass, c => .classObj c

theorem memberOf_receiver (side : Side) (name : String) (seen : List ClassId) (c : ClassId) :
    s.memberOf name seen (side.receiver c) = s.classMember side name seen c := by
  cases side <;> rfl

theorem lookupMember?_eq_memberOf {ty : Ty} (single : ty.isUnion = false) (name : String) :
    s.lookupMember? ty name = (s.memberOf name [] ty).1.map eachOnce := by
  rw [lookupMember?_eq single, memberOf_eq]

theorem enough_classMember (s : Session) (seen : List ClassId) :
    unseen s.classes.size seen < s.classes.size + 1 :=
  Nat.lt_succ_of_le (unseen_le_size ..)

theorem classMember_eq_some_iff :
    (s.classMember side name [] c).1 = some ids ↔ s.Answers side name c ids := by
  refine ⟨answers_of_classMemberWithin, fun answers => ?_⟩
  cases found : (s.classMember side name [] c).1 with
  | some other => rw [(answers_of_classMemberWithin found).unique answers]
  | none =>
    obtain ⟨y, mem, -⟩ := missed_classMemberWithin (s.enough_classMember []) found answers
    cases mem

theorem lookupMember?_receiver_iff {own : List BindingId} :
    s.lookupMember? (side.receiver c) name = some own ↔ ∃ ids, s.Answers side name c ids ∧
      eachOnce ids = own := by
  have single : (side.receiver c).isUnion = false := by cases side <;> rfl
  rw [lookupMember?_eq_memberOf single, memberOf_receiver, Option.map_eq_some_iff]
  simp only [classMember_eq_some_iff]

theorem Passes.lookupMember?_eq {c d : ClassId} (passes : s.Passes side name c d) :
    s.lookupMember? (side.receiver d) name = s.lookupMember? (side.receiver c) name := by
  apply Option.ext
  intro own
  rw [lookupMember?_receiver_iff, lookupMember?_receiver_iff]
  simp only [passes.answers_iff]

/-! ## One type after the other -/

def ownMembers (s : Session) (name : String) (t : Ty) : List BindingId := (s.lookupMember? t name).getD []

/-- Look-ups from both sides have the same answer wherever they pass the same class. -/
def SidesAgree (s : Session) (name : String) (ts : List Ty) : Prop :=
  ∀ c d x, .inst c ∈ ts → .classObj d ∈ ts → s.Passes .ofInstance name c x → s.Passes .ofClass name d x →
    s.lookupMember? (.inst x) name = s.lookupMember? (.classObj x) name

theorem SidesAgree.lookupMember?_eq (agree : s.SidesAgree name ts) {side side' : Side}
    {c d x : ClassId} (first : side.receiver c ∈ ts)
    (second : side'.receiver d ∈ ts) (passes : s.Passes side name c x) (passes' : s.Passes side' name d x) :
    s.lookupMember? (side.receiver x) name = s.lookupMember? (side'.receiver x) name := by
  cases side <;> cases side'
  · rfl
  · exact agree c d x first second passes passes'
  · exact (agree d c x second first passes' passes).symm
  · rfl

def Covered (s : Session) (name : String) (ts : List Ty) (seen : List ClassId)
    (out : List BindingId) : Prop :=
  ∀ y ∈ seen, ∃ side c, Side.receiver side c ∈ ts ∧ s.Passes side name c y ∧
    s.ownMembers name (side.receiver y) ⊆ out

theorem Covered.add (covered : s.Covered name ts seen out) (ids : List BindingId) :
    s.Covered name ts seen (ids.foldl addNew out) := by
  intro y mem
  obtain ⟨side, c, before, passes, taken⟩ := covered y mem
  exact ⟨side, c, before, passes, fun id here => mem_foldl_addNew.mpr (.inl (taken here))⟩

structure Adds (s : Session) (name : String) (ts : List Ty) (out : List BindingId) (t : Ty)
    (looked : Option (List BindingId) × List ClassId) : Prop where
  all : (looked.1.getD []).foldl addNew out = (s.ownMembers name t).foldl addNew out
  covered : s.Covered name ts looked.2 ((s.ownMembers name t).foldl addNew out)

theorem Covered.classMember (agree : s.SidesAgree name ts) (covered : s.Covered name ts seen out)
    (side : Side) (given : side.receiver c ∈ ts) :
    s.Adds name ts out (side.receiver c) (s.classMember side name seen c) := by
  constructor
  · cases found : (s.classMember side name seen c).1 with
    | some ids =>
      have own : s.lookupMember? (side.receiver c) name = some (eachOnce ids) :=
        lookupMember?_receiver_iff.mpr ⟨ids, answers_of_classMemberWithin found, rfl⟩
      rw [ownMembers, own]
      exact (foldl_addNew_eachOnce ids out).symm
    | none =>
      refine (foldl_addNew_of_subset ?_).symm
      cases own : s.lookupMember? (side.receiver c) name with
      | none => simp [ownMembers, own]
      | some members =>
        -- The answer is missed behind a class that was seen, and there it has been taken.
        obtain ⟨ids, answers, -⟩ := lookupMember?_receiver_iff.mp own
        obtain ⟨y, old, passes⟩ := missed_classMemberWithin (s.enough_classMember seen) found answers
        obtain ⟨side', d, before, passes', taken⟩ := covered y old
        unfold ownMembers at taken ⊢
        rw [← passes.lookupMember?_eq, agree.lookupMember?_eq given before passes passes']
        exact taken
  · intro y mem
    obtain old | passes := seen_classMemberWithin mem
    · exact covered.add _ y old
    · refine ⟨side, c, given, passes, fun id here => mem_foldl_addNew.mpr (.inr ?_)⟩
      unfold ownMembers at here ⊢
      rw [← passes.lookupMember?_eq]
      exact here

theorem Covered.memberOf (agree : s.SidesAgree name ts) (covered : s.Covered name ts seen out)
    {t : Ty} (given : t ∈ ts)
    (single : t.isUnion = false) : s.Adds name ts out t (s.memberOf name seen t) := by
  -- Where no class is asked, the classes seen before make no difference.
  have apart (same : s.memberOf name seen t = ((s.memberOf name [] t).1, seen)) :
      s.Adds name ts out t (s.memberOf name seen t) := by
    rw [same]
    refine ⟨?_, covered.add _⟩
    rw [ownMembers, lookupMember?_eq_memberOf single]
    cases (s.memberOf name [] t).1 with
    | none => rfl
    | some ids => exact (foldl_addNew_eachOnce ids out).symm
  cases t with
  | inst c => exact covered.classMember agree .ofInstance given
  | classObj c => exact covered.classMember agree .ofClass given
  | _ => exact apart rfl

theorem collectMembers_eq (agree : s.SidesAgree name ts) (flat : ∀ t ∈ ts, t.isUnion = false)
    {rest : List Ty} (among : rest ⊆ ts) (covered : s.Covered name ts seen out) :
    s.collectMembers name seen out rest = (rest.flatMap (s.ownMembers name)).foldl addNew out := by
  induction rest generalizing seen out with
  | nil => rfl
  | cons t rest ih =>
    rw [List.cons_subset] at among
    obtain ⟨same, next⟩ := covered.memberOf agree among.1 (flat t among.1)
    show s.collectMembers name (s.memberOf name seen t).2
        (((s.memberOf name seen t).1.getD []).foldl addNew out) rest = _
    rw [same, ih among.2 next, List.flatMap_cons, List.foldl_append]

theorem mem_ownMembers_of_memberOf {t : Ty} (single : t.isUnion = false) {id : BindingId}
    (mem : id ∈ (s.memberOf name seen t).1.getD []) :
    id ∈ s.ownMembers name t := by
  have taken {ids : List BindingId} (found : (s.memberOf name [] t).1 = some ids)
      (here : id ∈ ids) : id ∈ s.ownMembers name t := by
    rw [ownMembers, lookupMember?_eq_memberOf single, found]
    exact mem_eachOnce.mpr here
  have classes (side : Side) (c : ClassId) (same : t = side.receiver c) : id ∈ s.ownMembers name t := by
    subst same
    rw [memberOf_receiver] at mem taken
    cases found : (s.classMember side name seen c).1 with
    | none => simp [found] at mem
    | some ids =>
      rw [found] at mem
      exact taken (classMember_eq_some_iff.mpr (answers_of_classMemberWithin found)) mem
  cases t with
  | inst c => exact classes .ofInstance c rfl
  | classObj c => exact classes .ofClass c rfl
  | moduleObj m =>
    cases found : s.moduleMember? m name Side.ofClass.tiers with
    | none => simp [memberOf, found] at mem
    | some ids => exact taken found (by simpa [memberOf, found] using mem)
  | _ => cases mem

theorem mem_collectMembers (flat : ∀ t ∈ ts, t.isUnion = false) {id : BindingId}
    (mem : id ∈ s.collectMembers name seen out ts) :
    id ∈ out ∨ ∃ t ∈ ts, id ∈ s.ownMembers name t := by
  induction ts generalizing seen out with
  | nil => exact .inl mem
  | cons t ts ih =>
    obtain ⟨single, flat⟩ := List.forall_mem_cons.mp flat
    obtain before | ⟨u, later, own⟩ := ih flat mem
    · refine (mem_foldl_addNew.mp before).imp_right fun here => ⟨t, List.mem_cons_self, ?_⟩
      exact mem_ownMembers_of_memberOf single here
    · exact .inr ⟨u, List.mem_cons_of_mem t later, own⟩

theorem lookupMember?_eq_found? (ty : Ty) (name : String) :
    s.lookupMember? ty name = found? (s.ownMembers name ty) := by
  rw [ownMembers, lookupMember?_collects, getD_found?]

/-- **Members of a union are those of its parts,** in their order and each once, unless look-ups
from both sides pass the same class and are answered differently there. In any case there are no
others. -/
theorem members_distribute (s : Session) (name : String) {ty : Ty}
    (flat : ∀ t ∈ ty.members, t.isUnion = false) :
    (∀ ids, s.lookupMember? ty name = some ids → ∀ id ∈ ids, ∃ t ∈ ty.members, id ∈ s.ownMembers name t) ∧
    (s.SidesAgree name ty.members →
      s.lookupMember? ty name = found? (eachOnce (ty.members.flatMap (s.ownMembers name))) ∧
      (s.lookupMember? ty name = none ↔ ∀ t ∈ ty.members, s.lookupMember? t name = none) ∧
      ∀ t ∈ ty.members, ∀ ids, s.lookupMember? t name = some ids →
        ∃ all, s.lookupMember? ty name = some all ∧ ids ⊆ all) := by
  constructor
  · intro ids here id mem
    have all : s.collectMembers name [] [] ty.members = ids := by
      rw [← getD_found? (s.collectMembers name [] [] ty.members), ← lookupMember?_collects, here]
      rfl
    rw [← all] at mem
    exact (mem_collectMembers flat mem).resolve_left List.not_mem_nil
  · intro agree
    have same : s.lookupMember? ty name = found? (eachOnce (ty.members.flatMap (s.ownMembers name))) := by
      rw [lookupMember?_collects, collectMembers_eq agree flat (List.Subset.refl _) (by simp [Covered])]
      rfl
    refine ⟨same, ?_, fun t given ids own => ?_⟩
    · rw [same, found?_eq_none, eachOnce_eq_nil, List.flatMap_eq_nil_iff]
      exact forall₂_congr fun t _ => by rw [lookupMember?_eq_found?, found?_eq_none]
    · have inside : ids ⊆ eachOnce (ty.members.flatMap (s.ownMembers name)) := by
        intro id mem
        refine mem_eachOnce.mpr (List.mem_flatMap.mpr ⟨t, given, ?_⟩)
        rw [ownMembers, own]
        exact mem
      cases all : eachOnce (ty.members.flatMap (s.ownMembers name)) with
      | nil =>
        rw [lookupMember?_eq_found?] at own
        rw [all, List.subset_nil] at inside
        subst inside
        generalize s.ownMembers name t = members at own
        cases members <;> cases own
      | cons id rest =>
        rw [all] at same inside
        exact ⟨_, same, inside⟩

def accessor : String :=
  "\x7b\"type\":\"call\",\"func\":" ++ naming "attr_accessor" ++
    ",\"args\":\x7b\"positional\":[\x7b\"type\":\"symbol\",\"id\":\"x\"\x7d]\x7d\x7d"

def inheriting : String :=
  statements [classDump "A" "" (methodDump ++ "," ++ accessor),
    classDump "B" (",\"super\":" ++ naming "A") ""]

/-- The method is found in `A` from both sides. -/
theorem members_distribute_inheriting :
    (loadedVersion inheriting).SidesAgree "m" [.classObj 0, .inst 1] ∧
      (loadedVersion inheriting).lookupMember? (.union [.classObj 0, .inst 1]) "m" =
        found? (eachOnce ([.classObj 0, .inst 1].flatMap ((loadedVersion inheriting).ownMembers "m"))) ∧
      (loadedVersion inheriting).lookupMember? (.union [.classObj 0, .inst 1]) "m" = some [2] := by
  obtain ⟨answered, same, found⟩ : (loadedVersion inheriting).stationMember? .ofClass 0 "m" ≠ none ∧
      (loadedVersion inheriting).lookupMember? (.inst 0) "m" =
        (loadedVersion inheriting).lookupMember? (.classObj 0) "m" ∧
      (loadedVersion inheriting).lookupMember? (.union [.classObj 0, .inst 1]) "m" = some [2] := by
        decide +kernel
  have agree : (loadedVersion inheriting).SidesAgree "m" [.classObj 0, .inst 1] := by
    intro c d x _ given _ passes
    have object : d = 0 := by simpa using given
    subst object
    cases passes with
    | here => exact same
    | up silent => exact absurd silent answered
  have flat : ∀ t ∈ (Ty.union [.classObj 0, .inst 1]).members, t.isUnion = false := by decide
  exact ⟨agree, ((members_distribute _ "m" flat).2 agree).1, found⟩

/-- The accessor is not found, since `A` has been seen as a class object. -/
theorem members_hidden :
    Reachable (loadedVersion inheriting) ∧ (loadedVersion inheriting).lookupMember? (.inst 1) "x" = some [3] ∧
      (loadedVersion inheriting).lookupMember? (.union [.classObj 0, .inst 1]) "x" = none :=
  ⟨reachable_loadedVersion inheriting, by decide +kernel⟩

end Session

end RubyInfer
