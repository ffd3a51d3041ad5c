import RubyInfer.Proofs.Preorder
import RubyInfer.Proofs.Session.Members
import RubyInfer.Proofs.Session.Reloading

/-!
# The order in which members are looked up

A member is looked up in one place after the other: in the tables of a class, in the modules mixed
into it and into each other, depth first, and then in the same way for its base class and so on,
until the base classes end or repeat. `classPlaces` and `mixinPlaces` list these places, and a
look-up gives the first entry in them (`resolution_order`).
-/

namespace RubyInfer

namespace Registry

variable {ids : List BindingId}

def eachOnce (ids : List BindingId) : List BindingId := ids.foldl addNew []

theorem addNew_of_mem {id : BindingId} (old : id ∈ ids) : addNew ids id = ids := if_pos (by simpa using old)

theorem addNew_of_not_mem {id : BindingId} (new : id ∉ ids) : addNew ids id = ids ++ [id] :=
  if_neg (by simpa using new)

theorem eachOnce_eq_nil : eachOnce ids = [] ↔ ids = [] := by
  constructor
  · intro none
    refine List.eq_nil_iff_forall_not_mem.mpr fun id mem => ?_
    have there : id ∈ eachOnce ids := mem_foldl_addNew.mpr (.inr mem)
    rw [none] at there
    cases there
  · rintro rfl
    rfl

end Registry

namespace Session

open Registry

variable (s : Session) {ids : List BindingId} {p : Place}

/-! ## Places -/

abbrev Place := ScopeId × Tier

def entryAt? (name : String) (p : Place) : Option (List BindingId) := s.scopes.local? p.1 name p.2

def mixing : Graph where
  next m := (s.moduleRecord m).mixins
  size := s.modules.size
  bounded _ absent := mixins_of_size_le absent

def basing : Graph where
  next c := (s.classRecord c).base.toList
  size := s.classes.size
  bounded c absent := by
    cases based : (s.classRecord c).base with
    | none => rfl
    | some b => exact absurd (lt_size_of_base based) (Nat.not_lt_of_le absent)

def ownPlaces : Side → ClassId → List Place
  | .ofInstance, c => [((s.classRecord c).instances, .object), ((s.classRecord c).scope, .object)]
  | .ofClass, c => [((s.classRecord c).scope, .ofClass), ((s.classRecord c).scope, .object)]

def modulePlaces (side : Side) (m : ModuleId) : List Place :=
  side.tiers.map fun tier => ((s.moduleRecord m).scope, tier)

def mixinPlaces (side : Side) (m : ModuleId) : List Place :=
  (s.mixing.depthFirst [] [m]).flatMap (s.modulePlaces side)

def stationPlaces (side : Side) (c : ClassId) : List Place :=
  s.ownPlaces side c ++ (s.classRecord c).mixins.flatMap (s.mixinPlaces side)

def classPlaces (side : Side) (c : ClassId) : List Place :=
  (s.basing.depthFirst [] [c]).flatMap (s.stationPlaces side)

variable {s}

theorem tableEntry?_eq (scope : ScopeId) (name : String) (tiers : List Tier) :
    s.tableEntry? scope name tiers = (tiers.map fun tier => (scope, tier)).findSome? (s.entryAt? name) := by
  rw [List.findSome?_map]
  rfl

theorem ownMember?_eq (side : Side) (c : ClassId) (name : String) :
    s.ownMember? side c name = (s.ownPlaces side c).findSome? (s.entryAt? name) := by
  cases side with
  | ofInstance =>
    simp only [ownMember?, tableEntry?, List.findSome?_cons, List.findSome?_nil, ownPlaces, entryAt?]
    cases s.scopes.local? (s.classRecord c).instances name .object <;> rfl
  | ofClass => exact tableEntry?_eq ..

theorem moduleMemberWithin_eq (name : String) (tiers : List Tier) (bound : Nat)
    (seen : List ModuleId) (m : ModuleId) :
    s.moduleMemberWithin name tiers bound seen m =
      s.mixing.search (fun m => s.tableEntry? (s.moduleRecord m).scope name tiers) bound seen m := by
  induction bound generalizing seen m with
  | zero => rfl
  | succ bound ih =>
    have same := funext fun seen => funext fun m => ih seen m
    rw [moduleMemberWithin, Graph.search, same]
    split
    · rfl
    · cases s.tableEntry? (s.moduleRecord m).scope name tiers <;> rfl

theorem moduleMember?_eq (side : Side) (m : ModuleId) (name : String) :
    s.moduleMember? m name side.tiers = (s.mixinPlaces side m).findSome? (s.entryAt? name) := by
  unfold moduleMember? mixinPlaces
  rw [moduleMemberWithin_eq, findSome?_flatMap]
  refine (s.mixing.search_eq _ m).trans ?_
  congr 1
  funext m
  exact tableEntry?_eq ..

theorem stationMember?_eq (side : Side) (c : ClassId) (name : String) :
    s.stationMember? side c name = (s.stationPlaces side c).findSome? (s.entryAt? name) := by
  unfold stationMember? stationPlaces
  rw [ownMember?_eq, List.findSome?_append, findSome?_flatMap]
  congr 2
  funext m
  exact moduleMember?_eq side m name

theorem classMemberWithin_eq (side : Side) (name : String) (bound : Nat) (seen : List ClassId) (c : ClassId) :
    s.classMemberWithin side name bound seen c =
      s.basing.search (fun c => s.stationMember? side c name) bound seen c := by
  induction bound generalizing seen c with
  | zero => rfl
  | succ bound ih =>
    rw [classMemberWithin, Graph.search]
    split
    · rfl
    · cases s.stationMember? side c name with
      | some ids => rfl
      | none =>
        show _ = firstVisited _ (c :: seen) (s.classRecord c).base.toList
        cases (s.classRecord c).base with
        | none => rfl
        | some b =>
          refine (ih (c :: seen) b).trans ?_
          rw [Option.toList_some, firstVisited]
          split
          · assumption
          · rename_i answer
            exact answer

theorem classMember_eq (side : Side) (name : String) (c : ClassId) :
    (s.classMember side name [] c).1 = (s.classPlaces side c).findSome? (s.entryAt? name) := by
  unfold classMember classPlaces
  rw [classMemberWithin_eq, findSome?_flatMap]
  refine (s.basing.search_eq _ c).trans ?_
  congr 1
  funext c
  exact stationMember?_eq side c name

theorem entryAt?_ne_nil {name : String} (found : s.entryAt? name p = some ids) : ids ≠ [] := by
  have some := (Option.filter_eq_some_iff.mp found).2
  simpa using some

def memberPlaces (s : Session) : Ty → List Place
  | .inst c => s.classPlaces .ofInstance c
  | .classObj c => s.classPlaces .ofClass c
  | .moduleObj m => s.mixinPlaces .ofClass m
  | _ => []

theorem memberOf_eq (name : String) (ty : Ty) :
    (s.memberOf name [] ty).1 = (s.memberPlaces ty).findSome? (s.entryAt? name) := by
  cases ty with
  | inst c => exact classMember_eq .ofInstance name c
  | classObj c => exact classMember_eq .ofClass name c
  | moduleObj m => exact moduleMember?_eq .ofClass m name
  | _ => rfl

def found? : List BindingId → Option (List BindingId)
  | [] => none
  | ids => some ids

theorem getD_found? (ids : List BindingId) : (found? ids).getD [] = ids := by
  cases ids <;> rfl

theorem found?_eq_none : found? ids = none ↔ ids = [] := by
  cases ids <;> simp [found?]

theorem found?_of_ne_nil (any : ids ≠ []) : found? ids = some ids := by
  cases ids with
  | nil => exact absurd rfl any
  | cons id ids => rfl

theorem lookupMember?_collects (ty : Ty) (name : String) :
    s.lookupMember? ty name = found? (s.collectMembers name [] [] ty.members) := rfl

theorem lookupMember?_eq {ty : Ty} (single : ty.isUnion = false) (name : String) :
    s.lookupMember? ty name = ((s.memberPlaces ty).findSome? (s.entryAt? name)).map eachOnce := by
  have alone : s.collectMembers name [] [] [ty] = eachOnce ((s.memberOf name [] ty).1.getD []) := rfl
  rw [lookupMember?_collects, Ty.members_of_not_union single, alone, memberOf_eq]
  cases found : (s.memberPlaces ty).findSome? (s.entryAt? name) with
  | none => rfl
  | some ids =>
    obtain ⟨p, -, here⟩ := List.exists_of_findSome?_eq_some found
    have any : eachOnce ids ≠ [] := fun none => entryAt?_ne_nil here (eachOnce_eq_nil.mp none)
    rw [Option.getD_some, found?_of_ne_nil any, Option.map_some]

end Session

end RubyInfer
