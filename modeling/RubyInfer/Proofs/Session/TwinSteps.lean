import RubyInfer.Proofs.Session.Twin

/-!
# What keeps two sessions alike

Every change that inference makes to a session, made to both sessions at corresponding nodes, scopes
and types, leaves them alike. Most changes leave the stage as it is; a new scope and a tree that is
fetched lead to a later one.
-/

namespace RubyInfer

open Relator

theorem Frame.ScopeTwin.mono {F : Frame} {size more : Nat} (grown : size ≤ more) {i i' : ScopeId}
    (scope : F.ScopeTwin size i i') :
    F.ScopeTwin more i i' := { scope with inRange := Nat.lt_of_lt_of_le scope.inRange grown }

theorem optionRel_imp {α β : Type} {rel wide : α → β → Prop} (each : ∀ x y, rel x y → wide x y)
    {x : Option α} {y : Option β} (related : Option.Rel rel x y) : Option.Rel wide x y := by
  cases related with
  | none => exact .none
  | some related => exact .some (each _ _ related)

section Mono

variable {F : Frame} {L L' : Links} {size more : Nat}

theorem FunctionRecord.Twin.mono (wider : ∀ i j, L i j → L' i j) (grown : size ≤ more) {f f' : FunctionRecord}
    (twin : Twin F L size f f') : Twin F L' more f f' :=
  { twin with
    node := twin.node.mono wider
    env := twin.env.mono grown
    frame := optionRel_imp (fun _ _ => Frame.ScopeTwin.mono grown) twin.frame }

theorem ClassRecord.Twin.mono (grown : size ≤ more) {c c' : ClassRecord} (twin : Twin F size c c') :
    Twin F more c c' :=
  { twin with scope := twin.scope.mono grown, instances := twin.instances.mono grown }

theorem ModuleRecord.Twin.mono (grown : size ≤ more) {m m' : ModuleRecord}
    (twin : Twin F size m m') : Twin F more m m' :=
  { twin with scope := twin.scope.mono grown }

end Mono

/-! Entries before those that correspond are left alone. -/

section Low

variable {α : Type} {b : Array α} {k : Nat} {p : α → Prop}

theorem low_push (old : ∀ i < k, ∀ x ∈ b[i]?, p x) (before : k ≤ b.size) (y : α) :
    ∀ i < k, ∀ x ∈ (b.push y)[i]?, p x := by
  intro i low x there
  rw [Array.getElem?_push, if_neg (Nat.ne_of_lt (Nat.lt_of_lt_of_le low before))] at there
  exact old i low x there

theorem low_modify (old : ∀ i < k, ∀ x ∈ b[i]?, p x) (id : Nat) (f : α → α) :
    ∀ i < k, ∀ x ∈ (b.modify (id + k) f)[i]?, p x := by
  intro i low x there
  rw [Array.getElem?_modify, if_neg (by omega)] at there
  exact old i low x there

end Low

namespace Session.Twin

variable {P : Pairing} {st : Stage} {s s' : Session} {n n' : NodeRef} {i i' : ScopeId} {ty ty' : Ty}
    {id id' : FunctionId}
  {source : Path → Prop} {key key' : CallKey} {file : Path}

/-! ## Bindings -/

theorem bind (twin : Twin P st s s') (scope : P.ScopeTwin st.scopes i i') (tier : Tier) (name : String)
    (node : NodeRef.Twin P.toFrame st.links n n') (body : Span) (kind : BindingKind)
    (typed : P.TyTwin ty ty') :
    (s'.bind i' tier name n' body kind ty').1 = P.binding (s.bind i tier name n body kind ty).1 ∧
      Twin P st (s.bind i tier name n body kind ty).2 (s'.bind i' tier name n' body kind ty').2 := by
  obtain ⟨-, rfl⟩ := scope
  have made : Binding.Twin P.toFrame st.links
      { name, qname := s.scopes.qualify i name, kind, node := n, body, ty }
      { name, qname := s'.scopes.qualify (P.scope i) name, kind, node := n', body, ty := ty' } :=
    ⟨rfl, twin.scopes.qualify_eq i name, rfl, node, rfl, typed, .nil⟩
  obtain ⟨number, registry⟩ := twin.registry.register twin.unique made
  have entered := twin.scopes.enter i name tier
    (s.registry.register { name, qname := s.scopes.qualify i name, kind, node := n, body, ty }).1
  rw [← number] at entered
  exact ⟨number, { twin with registry, scopes := entered, sized := (Scopes.size_enter ..).trans twin.sized }⟩

theorem enter (twin : Twin P st s s') (scope : P.ScopeTwin st.scopes i i') (name : String)
    (tier : Tier) (id : BindingId) :
    Twin P st { s with scopes := s.scopes.enter i name tier id }
      { s' with scopes := s'.scopes.enter i' name tier (P.binding id) } := by
  obtain ⟨-, rfl⟩ := scope
  exact { twin with
    scopes := twin.scopes.enter i name tier id, sized := (Scopes.size_enter ..).trans twin.sized }

theorem refineAttributes (twin : Twin P st s s') (ids : List BindingId) (typed : P.TyTwin ty ty') :
    Twin P st (s.refineAttributes ids ty) (s'.refineAttributes (ids.map P.binding) ty') := by
  exact { twin with
    registry := twin.registry.modifyAll (Binding.definition_refineAttribute ty)
      (Binding.definition_refineAttribute ty') ids
      fun _ _ related => related.refineAttribute typed }

theorem refer (twin : Twin P st s s') (node : NodeRef.Twin P.toFrame st.links n n') (ids : List BindingId) :
    Twin P st (s.refer n ids) (s'.refer n' (ids.map P.binding)) := by
  refine { twin with registry := twin.registry.putRef twin.unique node ids, unresolved := ?_, resolved := ?_ }
  · show List.Forall₂ _ (if s.resolved.contains n then _ else _) (if s'.resolved.contains n' then _ else _)
    rw [NodeRef.Twin.contains_eq twin.unique twin.resolved node]
    split
    · exact twin.resolved
    · exact List.rel_append twin.resolved (.cons node .nil)
  · apply List.rel_filter _ twin.unresolved
    intro m m' related
    simp [related.eq_iff twin.unique node]

/-! ## Reports -/

theorem reported_push {ds : Diagnostics} (from_ : ∀ e ∈ ds.byFile.entries, source e.1)
    (d : Diagnostic) (here : source d.file) :
    ∀ e ∈ (ds.push d).byFile.entries, source e.1 := by
  intro e mem
  rcases PathMap.mem_entries_update mem with old | ⟨a, old, -, -⟩ | rfl
  · exact from_ e old
  · exact from_ (e.1, a) old
  · exact here

theorem push_diagnostic (twin : Twin P st s s') (d : Diagnostic) (source : P.source d.file) :
    Twin P st { s with diagnostics := s.diagnostics.push d }
      { s' with diagnostics := s'.diagnostics.push d } :=
  { twin with
    diagnostics := congrArg (·.push d) twin.diagnostics
    reported := reported_push twin.reported d source }

section

variable (twin : Twin P st s s') (node : NodeRef.Twin P.toFrame st.links n n')
include twin node

theorem report (category : Category) (message : String) :
    Twin P st (s.report n category message) (s'.report n' category message) := by
  unfold Session.report
  rw [node.file, twin.span_eq node]
  exact twin.push_diagnostic _ node.source

theorem markUnresolved : Twin P st (s.markUnresolved n) (s'.markUnresolved n') := by
  unfold Session.markUnresolved
  rw [NodeRef.Twin.contains_eq twin.unique twin.resolved node,
    NodeRef.Twin.contains_eq twin.unique twin.unresolved node]
  split
  · exact twin
  · exact { twin with unresolved := List.rel_append twin.unresolved (.cons node .nil) }

theorem settleReference (name : String) (found : Option (List BindingId)) :
    Twin P st (s.settleReference n name found).2
      (s'.settleReference n' name (found.map (·.map P.binding))).2 ∧
      P.TyTwin (s.settleReference n name found).1.1
        (s'.settleReference n' name (found.map (·.map P.binding))).1.1 ∧
      (s'.settleReference n' name (found.map (·.map P.binding))).1.2 =
        (s.settleReference n name found).1.2 := by
  cases found with
  | some ids =>
    have referred := twin.refer node ids
    exact ⟨referred, referred.typeOf_twin ids, referred.isCallable_eq ids⟩
  | none =>
    unfold Session.settleReference
    dsimp only [Option.map_none]
    split
    · exact ⟨twin, .bool, rfl⟩
    · split
      · exact ⟨twin, .nil, rfl⟩
      · split
        · exact ⟨twin, .unknown, rfl⟩
        · exact ⟨(twin.report node .error _).markUnresolved node, .unknown, rfl⟩

end

/-! ## Assignments -/

theorem bindInstanceVariable (twin : Twin P st s s') (c : Nat)
    (node : NodeRef.Twin P.toFrame st.links n n') (name : String) (typed : P.TyTwin ty ty') :
    Twin P st (s.bindInstanceVariable c n name ty)
      (s'.bindInstanceVariable (c + P.offsets.classes) n' name ty') := by
  have table := (twin.classRecord_twin c).instances
  have bound := (twin.bind table .object name node (s.span n) .attr typed).2
  unfold Session.bindInstanceVariable
  dsimp only
  rw [twin.span_eq node]
  have accessors :
      ((s'.bind (s'.classRecord (c + P.offsets.classes)).instances .object name n'
      (s.span n) .attr ty').2.scopes.local?
        (s'.classRecord (c + P.offsets.classes)).instances (plainName name) .object).getD [] =
      (((s.bind (s.classRecord c).instances .object name n (s.span n) .attr ty).2.scopes.local?
        (s.classRecord c).instances (plainName name) .object).getD []).map P.binding := by
    have entry := bound.scopes.local?_eq (s.classRecord c).instances (plainName name) .object
    rw [← table.eq] at entry
    rw [entry]
    cases (s.bind (s.classRecord c).instances .object name n (s.span n) .attr ty).2.scopes.local?
      (s.classRecord c).instances (plainName name) .object <;> rfl
  rw [accessors]
  exact bound.refineAttributes _ typed

theorem bindName (twin : Twin P st s s') (node : NodeRef.Twin P.toFrame st.links n n')
    (name : String) (nameKind : NameKind)
    (typed : P.TyTwin ty ty') (kind : BindingKind) (scope : P.ScopeTwin st.scopes i i') :
    Twin P st (s.bindName n name nameKind ty kind i) (s'.bindName n' name nameKind ty' kind i') := by
  have put {j j' : ScopeId} (place : P.ScopeTwin st.scopes j j') :=
    (twin.bind place .object name node (s.span n) kind typed).2
  have own := twin.selfClass?_rel i
  have global : P.ScopeTwin st.scopes Scopes.global Scopes.global :=
    ⟨twin.sized ▸ twin.scopes.global, P.scope_global.symm⟩
  unfold Session.bindName
  rw [twin.span_eq node]
  dsimp only
  rw [← scope.eq] at own
  cases nameKind with
  | plain => exact put (twin.localScope_twin scope name)
  | gvar => exact put global
  | ivar =>
    generalize s.selfClass? i = x, s'.selfClass? i' = y at own
    cases own with
    | none => exact put scope
    | @some c c' moved =>
      subst moved
      exact twin.bindInstanceVariable c node name typed
  | cvar =>
    generalize s.selfClass? i = x, s'.selfClass? i' = y at own
    cases own with
    | none => exact put scope
    | @some c c' moved =>
      subst moved
      exact put (twin.classRecord_twin c).scope

theorem bindMember (twin : Twin P st s s') {receiver receiver' : Ty} (received : P.TyTwin receiver receiver')
    (node : NodeRef.Twin P.toFrame st.links n n') (typed : P.TyTwin ty ty') :
    Twin P st (s.bindMember receiver n ty) (s'.bindMember receiver' n' ty') := by
  unfold Session.bindMember
  rw [twin.nameOf?_eq node]
  cases s.nameOf? n with
  | none => exact twin
  | some name =>
    dsimp only
    rw [twin.lookupMember?_eq received]
    cases s.lookupMember? receiver name with
    | none => exact twin
    | some ids => exact (twin.refineAttributes ids typed).refer node ids

/-! ## Definitions -/

theorem pushScope (twin : Twin P st s s') (kind : ScopeKind) (scope : P.ScopeTwin st.scopes i i')
    (path : String) :
    Twin P ⟨st.links, st.scopes + 1⟩ { s with scopes := (s.scopes.push kind (some i) path).2 }
        { s' with scopes := (s'.scopes.push kind (some i') path).2 } ∧
      P.ScopeTwin (st.scopes + 1) s.scopes.size s'.scopes.size := by
  obtain ⟨inRange, rfl⟩ := scope
  have grown := Nat.le_succ st.scopes
  obtain ⟨number, scopes⟩ := twin.scopes.push kind (twin.sized ▸ inRange) path
  constructor
  · exact { twin with
      scopes
      sized := (Scopes.size_push ..).trans (congrArg (· + 1) twin.sized)
      functions := twin.functions.imp fun _ _ => FunctionRecord.Twin.mono (fun _ _ linked => linked) grown
      classes := twin.classes.imp fun _ _ => ClassRecord.Twin.mono grown
      modules := twin.modules.imp fun _ _ => ModuleRecord.Twin.mono grown }
  · exact ⟨twin.sized ▸ Nat.lt_succ_self _, twin.scopes.size⟩

theorem owners_append {L : Nat} {a a' : List (ScopeId × Owner)} {owner owner' : Owner}
    (old : ∀ i : Nat, Option.Rel P.OwnerTwin (a.lookup i) (a'.lookup (P.scope i)))
    (scope : P.ScopeTwin L i i') (owned : P.OwnerTwin owner owner') (j : Nat) :
    Option.Rel P.OwnerTwin ((a ++ [(i, owner)]).lookup j) ((a' ++ [(i', owner')]).lookup (P.scope j)) := by
  obtain ⟨-, rfl⟩ := scope
  have here := old j
  rw [List.lookup_append, List.lookup_append]
  generalize a.lookup j = x, a'.lookup (P.scope j) = y at here
  cases here with
  | some related => exact .some related
  | none =>
    by_cases same : j = i
    · simpa [List.lookup_cons, same] using owned
    · have other : P.scope j ≠ P.scope i := fun eq => same (P.scope_inj.mp eq)
      have left : (j == i) = false := beq_false_of_ne same
      have right : (P.scope j == P.scope i) = false := beq_false_of_ne other
      simp [List.lookup_cons, left, right]

theorem classFor_named (s : Session) (name qname : String) (parent : ScopeId) :
    ∃ r, (s.classFor name qname parent).2.classes[(s.classFor name qname parent).1]? = some r ∧
      r.qname = qname := by
  unfold Session.classFor
  split
  · rename_i id found
    obtain ⟨inRange, hit, -⟩ := Array.findIdx?_eq_some_iff_getElem.mp found
    exact ⟨s.classes[id], Array.getElem?_eq_getElem inRange, of_decide_eq_true hit⟩
  · exact ⟨_, Array.getElem?_push_size, rfl⟩

theorem moduleFor_named (s : Session) (name qname : String) (parent : ScopeId) :
    ∃ r, (s.moduleFor name qname parent).2.modules[(s.moduleFor name qname parent).1]? = some r ∧
      r.qname = qname := by
  unfold Session.moduleFor
  split
  · rename_i id found
    obtain ⟨inRange, hit, -⟩ := Array.findIdx?_eq_some_iff_getElem.mp found
    exact ⟨s.modules[id], Array.getElem?_eq_getElem inRange, of_decide_eq_true hit⟩
  · exact ⟨_, Array.getElem?_push_size, rfl⟩

section

variable (twin : Twin P st s s')
include twin

theorem moduleFor (name qname : String) (scope : P.ScopeTwin st.scopes i i')
    (ok : P.ok (s.moduleFor name qname i).2) :
    ∃ st', st ≤ st' ∧ Twin P st' (s.moduleFor name qname i).2 (s'.moduleFor name qname i').2 ∧
      (s'.moduleFor name qname i').1 = (s.moduleFor name qname i).1 + P.offsets.modules ∧
      P.vocabulary.moduleObj (s.moduleFor name qname i).1 := by
  obtain ⟨r, there, rfl⟩ := moduleFor_named s name qname i
  obtain ⟨current, spoken⟩ := P.modules ok there
  clear there ok
  revert spoken
  unfold Session.moduleFor
  rw [twin.moduleNamed?_eq current]
  cases s.moduleNamed? r.qname with
  | some id => exact fun spoken => ⟨st, st.le_refl, twin, rfl, spoken⟩
  | none =>
    intro spoken
    obtain ⟨pushed, new⟩ := twin.pushScope .moduleBody scope r.qname
    refine ⟨⟨st.links, st.scopes + 1⟩, ⟨fun _ _ linked => linked, Nat.le_succ _⟩, ?_,
      twin.modules.size, spoken⟩
    have owner : P.OwnerTwin (.moduleObj s.modules.size) (.moduleObj s'.modules.size) := by
      rw [twin.modules.size]
      exact .moduleObj spoken
    exact { pushed with
      modules := pushed.modules.push ⟨rfl, rfl, new, rfl⟩
      staleModules := low_push twin.staleModules (twin.modules.size ▸ Nat.le_add_left ..) _
      owners := owners_append twin.owners new owner }

theorem classFor (name qname : String) (scope : P.ScopeTwin st.scopes i i')
    (ok : P.ok (s.classFor name qname i).2) :
    ∃ st', st ≤ st' ∧ Twin P st' (s.classFor name qname i).2 (s'.classFor name qname i').2 ∧
      (s'.classFor name qname i').1 = (s.classFor name qname i).1 + P.offsets.classes ∧
      P.vocabulary.classObj (s.classFor name qname i).1 := by
  obtain ⟨r, there, rfl⟩ := classFor_named s name qname i
  obtain ⟨current, spoken⟩ := P.classes ok there
  clear there ok
  revert spoken
  unfold Session.classFor
  rw [twin.classNamed?_eq current]
  cases s.classNamed? r.qname with
  | some id => exact fun spoken => ⟨st, st.le_refl, twin, rfl, spoken⟩
  | none =>
    intro spoken
    obtain ⟨pushed, new⟩ := twin.pushScope .classBody scope r.qname
    obtain ⟨pushed, inner⟩ := pushed.pushScope .instances new r.qname
    refine ⟨⟨st.links, st.scopes + 2⟩, ⟨fun _ _ linked => linked, Nat.le_add_right _ 2⟩, ?_,
      twin.classes.size, spoken⟩
    have owner : P.OwnerTwin (.classObj s.classes.size) (.classObj s'.classes.size) := by
      rw [twin.classes.size]
      exact .classObj spoken
    exact { pushed with
      classes := pushed.classes.push ⟨rfl, rfl, new.mono (Nat.le_succ _), inner, rfl, rfl⟩
      staleClasses := low_push twin.staleClasses (twin.classes.size ▸ Nat.le_add_left ..) _
      owners := owners_append twin.owners new owner }

theorem modifyClass (c : Nat) {f f' : ClassRecord → ClassRecord}
    (each : ∀ r r', ClassRecord.Twin P.toFrame st.scopes r r' →
      ClassRecord.Twin P.toFrame st.scopes (f r) (f' r')) :
    Twin P st { s with classes := s.classes.modify c f }
      { s' with classes := s'.classes.modify (c + P.offsets.classes) f' } :=
  { twin with
    classes := twin.classes.modify c fun _ => each,
    staleClasses := low_modify twin.staleClasses c f' }

theorem modifyModule (m : Nat) {f f' : ModuleRecord → ModuleRecord}
    (each : ∀ r r', ModuleRecord.Twin P.toFrame st.scopes r r' →
      ModuleRecord.Twin P.toFrame st.scopes (f r) (f' r')) :
    Twin P st { s with modules := s.modules.modify m f }
      { s' with modules := s'.modules.modify (m + P.offsets.modules) f' } :=
  { twin with
    modules := twin.modules.modify m fun _ => each,
    staleModules := low_modify twin.staleModules m f' }

theorem setBase (c : Nat) (base : Option Nat) :
    Twin P st (s.setBase c base) (s'.setBase (c + P.offsets.classes) (base.map (· + P.offsets.classes))) := by
  cases base with
  | none => exact twin
  | some b =>
    have other : b + P.offsets.classes ≠ c + P.offsets.classes ↔ b ≠ c := by omega
    unfold Session.setBase
    simp only [Option.map_some, (twin.classRecord_twin c).base, Option.isNone_map, other]
    split
    · exact twin.modifyClass c fun r r' related => { related with base := rfl }
    · exact twin

theorem addMixin {owner owner' : Owner} (owned : P.OwnerTwin owner owner') (m : Nat) :
    Twin P st (s.addMixin owner m) (s'.addMixin owner' (m + P.offsets.modules)) := by
  have added (mixins : List Nat) :
      (if (mixins.map (· + P.offsets.modules)).contains (m + P.offsets.modules) then
        mixins.map (· + P.offsets.modules)
        else mixins.map (· + P.offsets.modules) ++ [m + P.offsets.modules]) =
      (if mixins.contains m then mixins else mixins ++ [m]).map (· + P.offsets.modules) := by
    rw [contains_map_add]
    split <;> simp
  cases owned with
  | classObj =>
    exact twin.modifyClass _ fun r r' related =>
      { related with mixins := by dsimp only; rw [related.mixins]; exact added _ }
  | @moduleObj own =>
    have same : own + P.offsets.modules = m + P.offsets.modules ↔ own = m := Nat.add_right_cancel_iff
    unfold Session.addMixin
    simp only [same]
    split
    · exact twin
    · exact twin.modifyModule _ fun r r' related =>
      { related with mixins := by dsimp only; rw [related.mixins]; exact added _ }

theorem functionFor (node : NodeRef.Twin P.toFrame st.links n n') (name : String)
    (scope : P.ScopeTwin st.scopes i i')
    {owner owner' : Option Owner} (owned : Option.Rel P.OwnerTwin owner owner') (classLevel isLambda : Bool)
    (ok : P.ok (s.functionFor n name i owner classLevel isLambda).2) :
    Twin P st (s.functionFor n name i owner classLevel isLambda).2
      (s'.functionFor n' name i' owner' classLevel isLambda).2 ∧
      P.FunctionTwin (s.functionFor n name i owner classLevel isLambda).1
        (s'.functionFor n' name i' owner' classLevel isLambda).1 := by
  have known := twin.functionOf?_rel node
  revert ok
  unfold Session.functionFor
  generalize s.functionOf? n = x, s'.functionOf? n' = y at known
  cases known with
  | some related => exact fun _ => ⟨twin, related⟩
  | none =>
    intro ok
    have spoken : P.vocabulary.function s.functions.size := P.functions ok twin.before (by simp)
    have new : P.FunctionTwin s.functions.size s'.functions.size := ⟨twin.functions.size, spoken⟩
    have qname : s'.scopes.qualify i' name = s.scopes.qualify i name := by
      rw [scope.eq, twin.scopes.qualify_eq]
    refine ⟨?_, new⟩
    exact { twin with
      functions := twin.functions.push ⟨node, rfl, qname, scope, owned, rfl, rfl, rfl, .none, rfl⟩
      functionAt := List.rel_append twin.functionAt (.cons ⟨node, new⟩ .nil)
      before := Nat.le_trans twin.before (by simp) }

theorem addUncalled (known : P.FunctionTwin id id') : Twin P st (s.addUncalled id) (s'.addUncalled id') := by
  have there : s'.uncalled.contains id' = s.uncalled.contains id := by
    rw [Bool.eq_iff_iff, List.contains_iff_mem, List.contains_iff_mem]
    exact (List.rel_mem (functionTwin_biUnique _) known twin.uncalled).symm
  unfold Session.addUncalled
  rw [twin.called_eq known, there]
  split
  · exact twin
  · exact { twin with uncalled := List.rel_append twin.uncalled (.cons known .nil) }

theorem bindDefinition {inner inner' : ScopeId} (scope : P.ScopeTwin st.scopes i i')
    (body : P.ScopeTwin st.scopes inner inner')
    (name : String) (node : NodeRef.Twin P.toFrame st.links n n') {m m' : NodeRef}
    (nameNode : NodeRef.Twin P.toFrame st.links m m')
    (kind : BindingKind) (typed : P.TyTwin ty ty') :
    Twin P st (s.bindDefinition i inner name n m kind ty)
      (s'.bindDefinition i' inner' name n' m' kind ty') := by
  have bound := (twin.bind scope .object name nameNode (s.span n) kind typed).2
  unfold Session.bindDefinition
  dsimp only
  rw [twin.span_eq node, bound.span_eq node]
  exact (bound.bind body .object selfName nameNode _ .scope typed).2

theorem declareAttribute (scope : P.ScopeTwin st.scopes i i') (node : NodeRef.Twin P.toFrame st.links n n') :
    Twin P st (s.declareAttribute i n) (s'.declareAttribute i' n') := by
  unfold Session.declareAttribute
  rw [twin.kind_eq node, twin.span_eq node]
  dsimp only
  split
  · exact twin
  · rename_i name _
    obtain ⟨number, bound⟩ := twin.bind scope .object name node (s.span n) .attr .unknown
    rw [number]
    exact bound.enter scope _ .object _

end

/-! ## Applications -/

theorem modifyFunction (twin : Twin P st s s') (known : P.FunctionTwin id id')
    {f g : FunctionRecord → FunctionRecord}
    (each : ∀ r r', FunctionRecord.Twin P.toFrame st.links st.scopes r r' →
      FunctionRecord.Twin P.toFrame st.links st.scopes (f r) (g r')) :
    Twin P st (s.modifyFunction id f) (s'.modifyFunction id' g) := by
  obtain ⟨rfl, -⟩ := known
  exact { twin with
    functions := twin.functions.modify id fun _ => each
    before := Nat.le_trans twin.before (Nat.le_of_eq (Array.size_modify ..).symm) }

theorem markCalled (twin : Twin P st s s') (known : P.FunctionTwin id id') :
    Twin P st (s.markCalled id) (s'.markCalled id') := by
  have noted := twin.modifyFunction known (f := fun f => { f with called := true })
    (g := fun f => { f with called := true })
    fun r r' related => { related with called := rfl }
  refine { noted with uncalled := ?_, calls := ?_ }
  · apply List.rel_filter _ twin.uncalled
    intro j j' other
    simp [other.eq, known.eq]
  · show s'.calls + 1 = s.calls + 1 + P.offsets.calls
    rw [twin.calls]
    omega

theorem enterFrame (twin : Twin P st s s') (known : P.FunctionTwin id id') (there : id < s.functions.size) :
    ∃ st', st ≤ st' ∧ Twin P st' (s.enterFrame id).2 (s'.enterFrame id').2 ∧
      P.ScopeTwin st'.scopes (s.enterFrame id).1 (s'.enterFrame id').1 := by
  have record := twin.function_twin known there
  have frame := record.frame
  unfold Session.enterFrame
  dsimp only
  rw [record.isLambda, record.qname]
  generalize (s.function id).frame = x, (s'.function id').frame = y at frame
  cases frame with
  | some scope => exact ⟨st, st.le_refl, twin, scope⟩
  | none =>
    obtain ⟨pushed, new⟩ := twin.pushScope (if (s.function id).isLambda then .block else .function)
      record.env (s.function id).qname
    refine ⟨⟨st.links, st.scopes + 1⟩, ⟨fun _ _ linked => linked, Nat.le_succ _⟩, ?_, new⟩
    exact pushed.modifyFunction known fun r r' related => { related with frame := .some new }

theorem pushCall (twin : Twin P st s s') (same : CallKey.Twin P.toFrame key key') :
    Twin P st (s.pushCall key) (s'.pushCall key') := by
  have noted := twin.modifyFunction same.function (f := fun f => { f with active := f.active + 1 })
    (g := fun f => { f with active := f.active + 1 }) fun r r' related =>
      { related with active := congrArg (· + 1) related.active }
  exact { noted with callStack := .cons same twin.callStack, returns := .cons .unknown twin.returns }

theorem returns_headD (twin : Twin P st s s') :
    P.TyTwin (s.returns.headD .unknown) (s'.returns.headD .unknown) := by
  have returns := twin.returns
  generalize s.returns = x, s'.returns = y at returns
  cases returns with
  | nil => exact .unknown
  | cons first _ => exact first

theorem callStack_erase (same : CallKey.Twin P.toFrame key key') {ks ks' : List CallKey}
    (stack : List.Forall₂ (CallKey.Twin P.toFrame) ks ks') :
    List.Forall₂ (CallKey.Twin P.toFrame) (ks.erase key) (ks'.erase key') := by
  induction stack with
  | nil => exact .nil
  | @cons k k' ks ks' first rest ih =>
    have equal : k = key ↔ k' = key' := rel_eq (callKey_biUnique _) first same
    by_cases here : k = key
    · have here' := equal.mp here
      subst here here'
      rw [List.erase_cons_head, List.erase_cons_head]
      exact rest
    · have there := mt equal.mpr here
      rw [List.erase_cons_tail (by simpa using here), List.erase_cons_tail (by simpa using there)]
      exact .cons first ih

theorem popCall (twin : Twin P st s s') (same : CallKey.Twin P.toFrame key key') (typed : P.TyTwin ty ty') :
    Twin P st (s.popCall key ty).2 (s'.popCall key' ty').2 ∧
      P.TyTwin (s.popCall key ty).1 (s'.popCall key' ty').1 := by
  have result := typed.join twin.returns_headD
  have noted := twin.modifyFunction same.function
    (f := fun f => { f with active := f.active - 1, ret := f.ret.join (ty.join (s.returns.headD .unknown)) })
    (g := fun f =>
      { f with active := f.active - 1, ret := f.ret.join (ty'.join (s'.returns.headD .unknown)) })
    fun r r' related => { related with active := congrArg (· - 1) related.active }
  refine ⟨{ noted with callStack := callStack_erase same twin.callStack, returns := ?_ }, result⟩
  show List.Forall₂ P.TyTwin s.returns.tail s'.returns.tail
  rw [← List.drop_one, ← List.drop_one]
  exact List.forall₂_drop 1 twin.returns

theorem addReturn (twin : Twin P st s s') (typed : P.TyTwin ty ty') :
    Twin P st (s.addReturn ty) (s'.addReturn ty') := by
  have returns := twin.returns
  unfold Session.addReturn
  revert returns
  generalize left : s.returns = x
  generalize right : s'.returns = y
  intro returns
  cases returns with
  | nil => exact twin
  | cons first rest => exact { twin with returns := .cons (first.join typed) rest }

/-! ## Files -/

theorem mem_erase {set : PathSet} (from_ : ∀ f ∈ set.paths, source f) (file : Path) :
    ∀ f ∈ (set.erase file).paths, source f := fun f mem => from_ f (List.mem_filter.mp mem).1

theorem mem_insert {set : PathSet} (from_ : ∀ f ∈ set.paths, source f) (here : source file) :
    ∀ f ∈ (set.insert file).paths, source f := by
  unfold PathSet.insert
  split
  · exact from_
  · simpa [or_imp, forall_and] using And.intro from_ here

section

variable (twin : Twin P st s s')
include twin

theorem clearFailure (file : Path) :
    Twin P st { s with failed := s.failed.erase file } { s' with failed := s'.failed.erase file } :=
  { twin with failed := congrArg (·.erase file) twin.failed, failedFrom := mem_erase twin.failedFrom file }

theorem addLoaded (source : P.source file) :
    Twin P st { s with loaded := s.loaded.insert file } { s' with loaded := s'.loaded.insert file } :=
  { twin with
    loaded := congrArg (·.insert file) twin.loaded, loadedFrom := mem_insert twin.loadedFrom source }

theorem recordFailure (source : P.source file) : Twin P st (s.recordFailure file) (s'.recordFailure file) :=
  { twin.push_diagnostic (.onFile file .error "failed to parse") source with
    failed := congrArg (·.insert file) twin.failed
    failedFrom := mem_insert twin.failedFrom source }

theorem skipExhausted : Twin P st s.skipExhausted s'.skipExhausted :=
  { twin with store := P.clear twin.store }

theorem setExhausted (exhausted : Bool) : Twin P st { s with exhausted } { s' with exhausted } :=
  { twin with exhausted := rfl }

theorem setDepth (depth : Nat) : Twin P st { s with depth } { s' with depth } := { twin with depth := rfl }

theorem setStatic (staticContext : Bool) : Twin P st { s with staticContext } { s' with staticContext } :=
  { twin with staticContext := rfl }

theorem noteAutoload (file : String) :
    Twin P st { s with autoloaded := s.autoloaded ++ [file] }
      { s' with autoloaded := s'.autoloaded ++ [file] } :=
  { twin with autoloaded := fun project => congrArg (· ++ [file]) (twin.autoloaded project) }

theorem openFile (file : Path) (place : ∀ d ∈ file.parent?, P.place d) :
    Twin P st (s.openFile file) (s'.openFile file) := by
  refine { twin with importStack := congrArg (·.insert file) twin.importStack, cwd := rfl, roots := ?_ }
  intro d mem
  simp only [requireRoots, List.mem_append] at mem
  rcases mem with (old | new) | old
  · exact twin.roots d (by simp [requireRoots, show d ∈ s.options.loadPath from old])
  · exact place d (Option.mem_toList.mp new)
  · exact twin.roots d (by simp [requireRoots, show d ∈ s.projectDir.toList from old])

theorem closeFile (cwd : Option Path) (file : Path) (places : ∀ d ∈ cwd, P.place d) :
    Twin P st (s.closeFile cwd file) (s'.closeFile cwd file) := by
  refine { twin with importStack := congrArg (·.erase file) twin.importStack, cwd := rfl, roots := ?_ }
  intro d mem
  simp only [requireRoots, List.mem_append] at mem
  rcases mem with (old | back) | old
  · exact twin.roots d (by simp [requireRoots, show d ∈ s.options.loadPath from old])
  · exact places d (Option.mem_toList.mp back)
  · exact twin.roots d (by simp [requireRoots, show d ∈ s.projectDir.toList from old])

theorem fetch {path : Path} (target : P.target path) (ok : P.ok (s.fetch (s.files.settle path)).2) :
    P.source (s.files.settle path) ∧ ∃ st', st ≤ st' ∧
      Twin P st' (s.fetch (s.files.settle path)).2 (s'.fetch (s.files.settle path)).2 ∧
      Option.Rel
        (fun t t' => st'.links t t' ∧
          P.source ((s.fetch (s.files.settle path)).2.cache.trees[t]?.getD default).file ∧
          ∀ d ∈ (s.files.settle path).parent?, P.place d)
        (s.fetch (s.files.settle path)).1 (s'.fetch (s.files.settle path)).1 := by
  obtain ⟨source, L', wider, store, result⟩ := P.fetch twin.store target ok
  refine ⟨source, ⟨L', st.scopes⟩, ⟨wider, Nat.le_refl _⟩, ?_, result⟩
  exact { twin with
    store
    registry := twin.registry.mono wider
    functions := twin.functions.imp fun _ _ => FunctionRecord.Twin.mono wider (Nat.le_refl _)
    functionAt := twin.functionAt.imp fun _ _ entry => ⟨entry.1.mono wider, entry.2⟩
    resolved := twin.resolved.imp fun _ _ => NodeRef.Twin.mono wider
    unresolved := twin.unresolved.imp fun _ _ => NodeRef.Twin.mono wider }

end

end Session.Twin

end RubyInfer
