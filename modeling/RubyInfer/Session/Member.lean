import RubyInfer.Session.Basic

/-!
Members of a value: the tables of its class, then the modules mixed into the class, then the same
for the base class and so on. Base links and mixins may run in circles, so each look-up notes where
it has been.
-/

namespace RubyInfer.Session

def tableEntry? (s : Session) (scope : ScopeId) (name : String) (tiers : List Tier) :
    Option (List BindingId) :=
  tiers.findSome? (fun tier => s.scopes.local? scope name tier)

def firstVisited {α β : Type} (ask : List α → α → Option β × List α) : List α → List α → Option β × List α
  | seen, [] => (none, seen)
  | seen, x :: xs =>
    match ask seen x with
    | (some found, seen) => (some found, seen)
    | (none, seen) => firstVisited ask seen xs

def moduleMemberWithin (s : Session) (name : String) (tiers : List Tier) :
    (bound : Nat) → List ModuleId → ModuleId → Option (List BindingId) × List ModuleId
  | 0, seen, _ => (none, seen)
  | bound + 1, seen, m =>
    if seen.contains m then (none, seen)
    else
      let seen := m :: seen
      match s.tableEntry? (s.moduleRecord m).scope name tiers with
      | some ids => (some ids, seen)
      | none => firstVisited (s.moduleMemberWithin name tiers bound) seen (s.moduleRecord m).mixins

/-- A path without repetition has at most as many modules as there are, and one more step to find
the repetition. -/
def moduleMember? (s : Session) (m : ModuleId) (name : String) (tiers : List Tier) :
    Option (List BindingId) :=
  (s.moduleMemberWithin name tiers (s.modules.size + 1) [] m).1

inductive Side
  | ofInstance | ofClass
deriving DecidableEq

def Side.tiers : Side → List Tier
  | .ofInstance => [.object, .ofClass]
  | .ofClass => [.ofClass, .object]

def ownMember? (s : Session) (side : Side) (c : ClassId) (name : String) : Option (List BindingId) :=
  match side with
  | .ofInstance =>
    (s.tableEntry? (s.classRecord c).instances name [.object]).or
      (s.tableEntry? (s.classRecord c).scope name [.object])
  | .ofClass => s.tableEntry? (s.classRecord c).scope name [.ofClass, .object]

def stationMember? (s : Session) (side : Side) (c : ClassId) (name : String) : Option (List BindingId) :=
  (s.ownMember? side c name).or
    ((s.classRecord c).mixins.findSome? (fun m => s.moduleMember? m name side.tiers))

/-- A name along the chain of base classes, up to the first class that was seen before. -/
def classMemberWithin (s : Session) (side : Side) (name : String) :
    (bound : Nat) → List ClassId → ClassId → Option (List BindingId) × List ClassId
  | 0, seen, _ => (none, seen)
  | bound + 1, seen, c =>
    if seen.contains c then (none, seen)
    else
      let seen := c :: seen
      match s.stationMember? side c name with
      | some ids => (some ids, seen)
      | none =>
        match (s.classRecord c).base with
        | some b => s.classMemberWithin side name bound seen b
        | none => (none, seen)

def classMember (s : Session) (side : Side) (name : String) (seen : List ClassId) (c : ClassId) :
    Option (List BindingId) × List ClassId :=
  s.classMemberWithin side name (s.classes.size + 1) seen c

def memberOf (s : Session) (name : String) (seen : List ClassId) : Ty → Option (List BindingId) × List ClassId
  | .inst c => s.classMember .ofInstance name seen c
  | .classObj c => s.classMember .ofClass name seen c
  | .moduleObj m => (s.moduleMember? m name Side.ofClass.tiers, seen)
  | _ => (none, seen)

def collectMembers (s : Session) (name : String) : List ClassId → List BindingId → List Ty → List BindingId
  | _, out, [] => out
  | seen, out, t :: ts =>
    let (found, seen) := s.memberOf name seen t
    s.collectMembers name seen ((found.getD []).foldl Registry.addNew out) ts

def lookupMember? (s : Session) (ty : Ty) (name : String) : Option (List BindingId) :=
  match s.collectMembers name [] [] ty.members with
  | [] => none
  | ids => some ids

def memberScope? (s : Session) (ty : Ty) : Option ScopeId :=
  ty.members.findSome? fun
    | .classObj c => some (s.classRecord c).scope
    | .inst c => some (s.classRecord c).scope
    | .moduleObj m => some (s.moduleRecord m).scope
    | _ => none

end RubyInfer.Session
