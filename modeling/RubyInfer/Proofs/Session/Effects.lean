import RubyInfer.Proofs.Diagnostic
import RubyInfer.Proofs.Session.Guards

/-!
# What the operations on a session do

Look-ups give bindings that stand in some entry, and types and scopes that are as sound as the
session. Each operation that inference makes on a session without visiting a node is a run of
updates.
-/

namespace RubyInfer.Session

variable {R : Regime} {s t : Session} {ids : List BindingId} {scope : ScopeId} {name : String}
    {node : NodeRef} {ty : Ty} {id : String}
  {seen : List ClassId}

/-! ## Look-ups -/

theorem holds_tableEntry? {tiers : List Tier} (found : s.tableEntry? scope name tiers = some ids) :
    ∀ id ∈ ids, s.scopes.Holds id := by
  obtain ⟨tier, -, here⟩ := List.exists_of_findSome?_eq_some found
  exact Scopes.holds_of_local? here

theorem firstVisited_of_some {α β : Type} {ask : List α → α → Option β × List α} {xs seen : List α}
    {found : β}
    (answer : (firstVisited ask seen xs).1 = some found) : ∃ before x, (ask before x).1 = some found := by
  induction xs generalizing seen with
  | nil => simp [firstVisited] at answer
  | cons x xs ih =>
    unfold firstVisited at answer
    split at answer
    · rename_i here
      exact ⟨seen, x, by rw [here]; exact answer⟩
    · exact ih answer

theorem holds_moduleMemberWithin {tiers : List Tier} {bound : Nat} {seen : List ModuleId} {m : ModuleId}
    (found : (s.moduleMemberWithin name tiers bound seen m).1 = some ids) :
    ∀ id ∈ ids, s.scopes.Holds id := by
  induction bound generalizing seen m with
  | zero => simp [moduleMemberWithin] at found
  | succ bound ih =>
    unfold moduleMemberWithin at found
    split at found
    · simp at found
    · dsimp only at found
      split at found
      · rename_i entry
        cases found
        exact holds_tableEntry? entry
      · obtain ⟨before, inner, here⟩ := firstVisited_of_some found
        exact ih here

theorem holds_stationMember? {side : Side} {c : ClassId} (found : s.stationMember? side c name = some ids) :
    ∀ id ∈ ids, s.scopes.Holds id := by
  obtain own | ⟨-, mixed⟩ := Option.or_eq_some_iff.mp found
  · unfold ownMember? at own
    split at own
    · obtain here | ⟨-, here⟩ := Option.or_eq_some_iff.mp own <;> exact holds_tableEntry? here
    · exact holds_tableEntry? own
  · obtain ⟨m, -, here⟩ := List.exists_of_findSome?_eq_some mixed
    exact holds_moduleMemberWithin here

theorem holds_classMemberWithin {side : Side} {bound : Nat} {c : ClassId}
    (found : (s.classMemberWithin side name bound seen c).1 = some ids) : ∀ id ∈ ids, s.scopes.Holds id := by
  induction bound generalizing seen c with
  | zero => simp [classMemberWithin] at found
  | succ bound ih =>
    unfold classMemberWithin at found
    split at found
    · simp at found
    · dsimp only at found
      split at found
      · rename_i station
        cases found
        exact holds_stationMember? station
      · split at found
        · exact ih found
        · simp at found

theorem holds_memberOf (found : (s.memberOf name seen ty).1 = some ids) : ∀ id ∈ ids, s.scopes.Holds id := by
  cases ty with
  | inst c => exact holds_classMemberWithin found
  | classObj c => exact holds_classMemberWithin found
  | moduleObj m => exact holds_moduleMemberWithin found
  | _ => simp [memberOf] at found

theorem holds_collectMembers {tys : List Ty} {out : List BindingId} (held : ∀ id ∈ out, s.scopes.Holds id) :
    ∀ id ∈ s.collectMembers name seen out tys, s.scopes.Holds id := by
  induction tys generalizing seen out with
  | nil => exact held
  | cons ty tys ih =>
    show ∀ id ∈ s.collectMembers name (s.memberOf name seen ty).2
      (((s.memberOf name seen ty).1.getD []).foldl Registry.addNew out) tys, s.scopes.Holds id
    apply ih
    intro id mem
    obtain old | new := Registry.mem_foldl_addNew.mp mem
    · exact held id old
    · cases found : (s.memberOf name seen ty).1 with
      | none => simp [found] at new
      | some ids => exact holds_memberOf found id (by simpa [found] using new)

theorem holds_lookupMember? (found : s.lookupMember? ty name = some ids) : ∀ id ∈ ids, s.scopes.Holds id := by
  unfold lookupMember? at found
  split at found
  · simp at found
  · cases found
    exact holds_collectMembers (by simp)

theorem holds_lookupName? (found : s.lookupName? scope name = some ids) : ∀ id ∈ ids, s.scopes.Holds id := by
  obtain here | ⟨-, here⟩ := Option.or_eq_some_iff.mp found <;> exact Scopes.holds_of_lookup? here

theorem holds_lookupAround? (found : s.lookupAround? scope id = some ids) :
    ∀ id ∈ ids, s.scopes.Holds id := by
  unfold lookupAround? at found
  split at found
  · rename_i name
    cases found
    exact holds_lookupName? name
  · split at found
    · simp at found
    · exact holds_lookupMember? found

theorem holds_variableMember? {table : ClassRecord → ScopeId}
    (found : s.variableMember? scope id table = some ids) :
    ∀ id ∈ ids, s.scopes.Holds id := by
  obtain ⟨c, -, here⟩ := Option.bind_eq_some_iff.mp found
  exact Scopes.holds_of_local? here

theorem holds_resolveName? {kind : NameKind} (found : s.resolveName? scope id kind = some ids) :
    ∀ id ∈ ids, s.scopes.Holds id := by
  cases kind with
  | gvar => exact Scopes.holds_of_local? found
  | plain => exact holds_lookupAround? found
  | ivar | cvar =>
    obtain here | ⟨-, here⟩ := Option.or_eq_some_iff.mp found
    · exact holds_variableMember? here
    · exact holds_lookupAround? here

/-! ## Sound answers -/

theorem Sound.typeOf (sound : s.Sound R) (ids : List BindingId) : R.ty (s.typeOf ids) := by
  apply R.closed.makeUnion
  intro ty mem
  obtain ⟨id, -, here⟩ := List.mem_filterMap.mp mem
  obtain ⟨b, live, rfl⟩ := Option.map_eq_some_iff.mp here
  exact sound.bindings live

theorem Sound.selfType (sound : s.Sound R) (scope : ScopeId) : R.ty (s.selfType scope) := by
  unfold Session.selfType
  split
  · exact sound.typeOf _
  · exact R.closed.unknown

theorem Sound.defaultSelf (id : FunctionId) : R.ty (s.defaultSelf id) := by
  unfold Session.defaultSelf
  dsimp only
  split
  · split
    · exact R.closed.classObj _
    · exact R.closed.inst _
  · exact R.closed.moduleObj _
  · exact R.closed.unknown

theorem Sound.classRecord (sound : s.Sound R) (c : ClassId) :
    s.HasScope R (s.classRecord c).scope ∧ s.HasScope R (s.classRecord c).instances := by
  unfold Session.classRecord
  cases here : s.classes[c]? with
  | none => exact ⟨sound.global, sound.global⟩
  | some record => exact sound.classes here

theorem Sound.moduleRecord (sound : s.Sound R) (m : ModuleId) : s.HasScope R (s.moduleRecord m).scope := by
  unfold Session.moduleRecord
  cases here : s.modules[m]? with
  | none => exact sound.global
  | some record => exact sound.modules here

theorem Sound.memberScope (sound : s.Sound R) (there : s.HasScope R scope) (ty : Ty) :
    s.HasScope R ((s.memberScope? ty).getD scope) := by
  cases found : s.memberScope? ty with
  | none => exact there
  | some member =>
    obtain ⟨m, -, here⟩ := List.exists_of_findSome?_eq_some found
    split at here
    · cases here
      exact (sound.classRecord _).1
    · cases here
      exact (sound.classRecord _).1
    · cases here
      exact sound.moduleRecord _
    · cases here

theorem HasScope.localScope (there : s.HasScope R scope) (name : String) :
    s.HasScope R (s.localScope scope name) := by
  unfold Session.localScope
  dsimp only
  cases found : (s.blockChain (s.scopes.chain scope)).find?
      (fun id => (s.scopes.local? id name .object).isSome && decide (name ≠ blockName)) with
  | none => exact there
  | some id =>
    intro _
    have has := List.find?_some found
    rw [Bool.and_eq_true] at has
    obtain ⟨ids, entry⟩ := Option.isSome_iff_exists.mp has.1
    exact Scopes.lt_size_of_local? entry

/-! ## Plain updates -/

def roster (s : Session) :=
  (s.functionAt, s.uncalled, s.functions, s.exhausted, s.failed, s.scopes)

theorem Plain.same (kept : t.roster = s.roster) : Plain R s t := by
  simp only [roster, Prod.mk.injEq] at kept
  obtain ⟨functionAt, uncalled, functions, exhausted, failed, scopes⟩ := kept
  refine ⟨functionAt, uncalled, fun j was => ?_, fun spent => exhausted ▸ spent, fun _ there =>
    failed ▸ there, fun _ nested => ?_⟩
  · rwa [function, functions] at was
  · rwa [scopes, functions]

theorem Plain.scopes (plain : Plain R s { t with scopes := s.scopes }) 
    (nested : R.inScope → Nested s.scopes s.functions → Nested t.scopes t.functions) : Plain R s t :=
  { plain with nested }

theorem Plain.settled (plain : Plain R s { t with exhausted := s.exhausted })
    (going : t.exhausted = false) : Plain R s t :=
  { plain with exhausted := fun spent => by rw [going] at spent; cases spent }

theorem Plain.failing (plain : Plain R s { t with failed := s.failed })
    (failed : s.failed.paths <+: t.failed.paths) :
    Plain R s t := by
  refine { plain with failed := fun file there => ?_ }
  obtain ⟨p, mem, same⟩ := List.any_eq_true.mp there
  exact List.any_eq_true.mpr ⟨p, failed.subset mem, same⟩

section Nested

variable {scopes : Scopes} {functions : Array FunctionRecord}

theorem Nested.enter (nested : Nested scopes functions) (scope : ScopeId) (name : String)
    (tier : Tier) (id : BindingId) :
    Nested (scopes.enter scope name tier id) functions := by
  refine ⟨by rw [Scopes.size_enter]; exact nested.global, fun {id new} here p set => ?_, fun here => ?_⟩
  · obtain ⟨old, there, rfl | rfl⟩ := getElem?_modify_eq_some here
    · exact nested.parents there p set
    · rw [Scope.add_eq] at set
      exact nested.parents there p set
  · rw [Scopes.size_enter]
    exact nested.functions here

theorem Nested.push (nested : Nested scopes functions) {parent : ScopeId}
    (older : parent < scopes.size) (kind : ScopeKind)
    (path : String) : Nested (scopes.push kind (some parent) path).2 functions := by
  refine ⟨by rw [Scopes.size_push]; exact Nat.lt_succ_of_lt nested.global,
    fun {id new} here p set => ?_, fun here => ?_⟩
  · replace here : (scopes.arena.push ⟨kind, some parent, path, []⟩)[id]? = some new := here
    rw [Array.getElem?_push] at here
    split at here
    · rename_i last
      cases here
      cases set
      exact last ▸ older
    · exact nested.parents here p set
  · rw [Scopes.size_push]
    exact Nat.lt_succ_of_lt (nested.functions here)

end Nested

/-! ## Names -/

theorem runs_bind (there : s.HasScope R scope) (typed : R.ty ty) (rooted : s.HasTree R node)
    (tier : Tier) (name : String) (body : Span)
    (kind : BindingKind) : Runs R s (s.bind scope tier name node body kind ty).2 := by
  exact .update (.bind scope tier name node body kind ty there typed rooted)
    (Plain.scopes (.same rfl) fun _ nested => nested.enter ..)

theorem holds_bind (there : scope < s.scopes.size) (tier : Tier) (name : String) (node : NodeRef)
    (body : Span) (kind : BindingKind)
    (ty : Ty) : (s.bind scope tier name node body kind ty).2.scopes.Holds
      (s.bind scope tier name node body kind ty).1 :=
  Scopes.holds_enter_self there name tier _

theorem runs_markUnresolved (named : s.nameOf? node = some id)
    (reported : s.diagnostics.has (s.unboundReport node id) = true) :
    Runs R s (s.markUnresolved node) := by
  unfold markUnresolved
  split
  · exact .refl s
  · rename_i new
    simp only [List.contains_iff_mem, not_or] at new
    exact .update (.unresolved node id named reported new.1 new.2) (.same rfl)

theorem runs_settleReference (sound : s.Sound R) (named : s.nameOf? node = some id)
    {found : Option (List BindingId)}
    (held : ∀ ids, found = some ids → ∀ id ∈ ids, s.scopes.Holds id) :
    Runs R s (s.settleReference node id found).2 ∧ R.ty (s.settleReference node id found).1.1 := by
  cases found with
  | some ids =>
    have run : Runs R s (s.refer node ids) := .update (.refer node ids (held ids rfl)) (.same rfl)
    exact ⟨run, (run.sound sound).typeOf ids⟩
  | none =>
    unfold settleReference
    dsimp only
    repeat' split
    · exact ⟨.refl s, R.closed.bool⟩
    · exact ⟨.refl s, R.closed.nil⟩
    · exact ⟨.refl s, R.closed.unknown⟩
    · refine ⟨?_, R.closed.unknown⟩
      have reporting : Runs R s (s.report node .error ("unbound variable " ++ id)) :=
        .update (.report node id named) (.same rfl)
      have still : (s.report node .error ("unbound variable " ++ id)).nameOf? node = some id := named
      exact reporting.trans (runs_markUnresolved still (Diagnostics.has_push ..))

theorem runs_bindInstanceVariable (sound : s.Sound R) (c : ClassId) (rooted : s.HasTree R node)
    (name : String) (typed : R.ty ty) :
    Runs R s (s.bindInstanceVariable c node name ty) :=
  (runs_bind (sound.classRecord c).2 typed rooted .object name (s.span node) .attr).trans
    (.update (.refineAttributes _ ty typed) (.same rfl))

theorem runs_bindName (sound : s.Sound R) (there : s.HasScope R scope) (typed : R.ty ty)
    (rooted : s.HasTree R node) (name : String)
    (nameKind : NameKind) (kind : BindingKind) : Runs R s (s.bindName node name nameKind ty kind scope) := by
  unfold bindName
  cases nameKind with
  | plain => exact runs_bind (there.localScope name) typed rooted ..
  | gvar => exact runs_bind sound.global typed rooted ..
  | ivar =>
    dsimp only
    split
    · exact runs_bindInstanceVariable sound _ rooted name typed
    · exact runs_bind there typed rooted ..
  | cvar =>
    dsimp only
    split
    · exact runs_bind (sound.classRecord _).1 typed rooted ..
    · exact runs_bind there typed rooted ..

theorem runs_bindMember (typed : R.ty ty) (receiver : Ty) (attr : NodeRef) :
    Runs R s (s.bindMember receiver attr ty) := by
  unfold bindMember
  split
  · exact .refl s
  · split
    · exact .refl s
    · rename_i ids found
      have held := holds_lookupMember? found
      have refining : Runs R s (s.refineAttributes ids ty) :=
        .update (.refineAttributes ids ty typed) (.same rfl)
      exact refining.trans (.update (.refer attr ids held) (.same rfl))

theorem runs_declareAttribute {instances : ScopeId} (there : s.HasScope R instances) (arg : NodeRef) :
    Runs R s (s.declareAttribute instances arg) := by
  unfold declareAttribute
  dsimp only
  split
  · exact .refl s
  · rename_i name written
    have rooted : s.HasTree R arg := hasTree_of_kind fun empty => by simp [empty] at written
    refine (runs_bind there R.closed.unknown rooted ..).trans
      (.update (.enter _ _ _ _ fun asked => holds_bind (there asked) ..)
        (Plain.scopes (.same rfl) fun _ nested => nested.enter ..))

/-! ## Definitions -/

theorem runs_moduleFor (name qname : String) {parent : ScopeId} (around : s.HasScope R parent) :
    Runs R s (s.moduleFor name qname parent).2 := by
  unfold moduleFor
  split
  · exact .refl s
  · rename_i new
    exact .update (.newModule name qname parent new) (Plain.scopes (.same rfl) fun asked nested =>
      nested.push (around asked) ..)

theorem runs_classFor (name qname : String) {parent : ScopeId} (around : s.HasScope R parent) :
    Runs R s (s.classFor name qname parent).2 := by
  unfold classFor
  split
  · exact .refl s
  · rename_i new
    refine .update ?_ (Plain.scopes (.same rfl) fun asked nested => ?_)
    · simpa [Scopes.push, Scopes.size] using Update.newClass (R := R) name qname parent new
    · have inside : s.scopes.size < (s.scopes.push .classBody (some parent) qname).2.size := by simp
      exact (nested.push (around asked) .classBody qname).push inside .instances qname

theorem runs_setBase (id : ClassId) (base : Option ClassId) : Runs R s (s.setBase id base) := by
  unfold setBase
  split
  · split
    · rename_i b allowed
      exact .update (.setBase id b allowed.1 (by simpa using allowed.2)) (.same rfl)
    · exact .refl s
  · exact .refl s

theorem runs_addMixin (owner : Owner) (m : ModuleId) : Runs R s (s.addMixin owner m) := by
  cases owner with
  | classObj c => exact .update (.mixIntoClass c m) (.same rfl)
  | moduleObj own =>
    unfold addMixin
    dsimp only
    split
    · exact .refl s
    · rename_i other
      exact .update (.mixIntoModule own m other) (.same rfl)

theorem runs_bindDefinition {outer inner : ScopeId} (around : s.HasScope R outer)
    (inside : s.HasScope R inner) (typed : R.ty ty)
    {nameNode : NodeRef} (rooted : s.HasTree R nameNode) (name : String) (node : NodeRef)
    (kind : BindingKind) :
    Runs R s (s.bindDefinition outer inner name node nameNode kind ty) := by
  have first : Runs R s (s.bind outer .object name nameNode (s.span node) kind ty).2 :=
    runs_bind around typed rooted ..
  exact first.trans (runs_bind (inside.after first) typed (rooted.after first) ..)

theorem addUncalled_bind (id : FunctionId) (scope : ScopeId) (tier : Tier) (name : String)
    (node : NodeRef) (body : Span) (kind : BindingKind) (ty : Ty) :
    (s.bind scope tier name node body kind ty).2.addUncalled id =
      ((s.addUncalled id).bind scope tier name node body kind ty).2 := by
  unfold addUncalled
  split <;> split <;> first | rfl | contradiction

theorem runs_nameFunction {node nameNode : NodeRef} (written : s.IsFunction node)
    (rooted : s.HasTree R nameNode) {target : ScopeId}
    (lands : s.HasScope R target) (name : String) (owner : Option Owner)
    (classLevel isLambda : Bool) (tier : Tier) (body : Span)
    (kind : BindingKind) {made : FunctionId × Session}
    (same : made = s.functionFor node name target owner classLevel isLambda) :
    Runs R s ((made.2.bind target tier name nameNode body kind (.function made.1)).2.addUncalled made.1) := by
  subst same
  have queued : Runs R s (s.queueFunction node name target owner classLevel isLambda) :=
    .define _ _ _ _ _ _ written lands
  rw [addUncalled_bind]
  exact queued.trans (runs_bind (lands.after queued) (R.closed.function _) (rooted.after queued) ..)

/-! ## Applications -/

theorem Nested.env (nested : Nested s.scopes s.functions) (id : FunctionId) :
    (s.function id).env < s.scopes.size := by
  unfold function
  cases here : s.functions[id]? with
  | none => exact nested.global
  | some f => exact nested.functions here

theorem plain_newFrame (id : FunctionId) (kind : ScopeKind) :
    Plain R s { s with
      scopes := (s.scopes.push kind (some (s.function id).env) (s.function id).qname).2
      functions := s.functions.modify id (fun f => { f with frame := some s.scopes.size }) } where
  functionAt := rfl
  uncalled := rfl
  called j was := by
    have modified := s.function_modifyFunction id (fun f => { f with frame := some s.scopes.size }) j
    replace was : ((s.modifyFunction id (fun f => { f with frame := some s.scopes.size })).function
      j).called = true := was
    rw [modified] at was
    split at was <;> exact was
  exhausted spent := spent
  failed _ there := there
  nested _ nested := by
    have pushed := nested.push (nested.env id) kind (s.function id).qname
    refine ⟨pushed.global, pushed.parents, fun {j f} here => ?_⟩
    obtain ⟨f, there, rfl | rfl⟩ := getElem?_modify_eq_some here <;> exact (pushed.functions there :)

theorem runs_enterFrame (sound : s.Sound R) {id : FunctionId} (inRange : id < s.functions.size) :
    Runs R s (s.enterFrame id).2 ∧ (s.enterFrame id).2.HasScope R (s.enterFrame id).1 ∧
      (s.enterFrame id).2.Entered id := by
  unfold enterFrame
  dsimp only
  split
  · rename_i frame set
    refine ⟨.refl s, ?_, by unfold Entered; rw [set]; rfl⟩
    unfold function at set
    cases here : s.functions[id]? with
    | none => simp [here, default, instInhabitedFunctionRecord.default] at set
    | some f => exact (sound.functions here).2 frame (by simpa [here] using set)
  · rename_i unset
    refine ⟨.update (.newFrame id _ unset) (plain_newFrame id _), fun _ => ?_, ?_⟩
    · show s.scopes.size < (s.scopes.push _ _ _).2.size
      simp
    · refine (congrArg (fun f : FunctionRecord => f.frame.isSome)
        (s.function_modifyFunction id _ id)).trans ?_
      rw [if_pos ⟨rfl, inRange⟩]
      rfl

theorem enterFrame_markCalled (s : Session) (id : FunctionId) :
    (s.markCalled id).enterFrame id = ((s.enterFrame id).1, (s.enterFrame id).2.markCalled id) := by
  obtain ⟨called, marked⟩ : ∃ called, (s.markCalled id).function id = { s.function id with called } := by
    have marked := s.function_modifyFunction id (fun f => { f with called := true }) id
    split at marked
    · exact ⟨true, marked⟩
    · exact ⟨_, marked⟩
  cases framed : (s.function id).frame with
  | some frame => simp only [enterFrame, marked, framed]
  | none =>
    simp only [enterFrame, marked, framed]
    refine Prod.ext rfl ?_
    simp only [markCalled, modifyFunction]
    congr 1
    apply Array.ext_getElem?
    intro j
    simp only [Array.getElem?_modify]
    split
    · cases s.functions[j]? <;> rfl
    · rfl

theorem runs_addReturn (typed : R.ty ty) : Runs R s (s.addReturn ty) := by
  unfold addReturn
  split
  · exact .refl s
  · rename_i acc rest current
    exact .update (.addReturn acc ty rest current typed) (.same rfl)

end RubyInfer.Session
