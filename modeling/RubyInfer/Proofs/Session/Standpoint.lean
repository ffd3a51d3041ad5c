import RubyInfer.Proofs.Session.Course
import RubyInfer.Proofs.Session.Does

/-!
# Where a run begins

Two things of a session belong to the place from which something is inferred: the static context,
and what the applications under way have returned so far. `Blind` says that a computation does the
same from elsewhere, and adds the same types to what is returned there. For another static context
this is said only as long as the two runs, side by side, do not come to an event at which it
matters.
-/

namespace RubyInfer

variable {α β : Type} {first second others rest : List Event}

/-! ## Returned types -/

def pour (tys : List Ty) : List Ty → List Ty
  | [] => []
  | acc :: rest => tys.foldl Ty.join acc :: rest

@[simp]
theorem pour_nil (pending : List Ty) : pour [] pending = pending := by
  cases pending <;> rfl

theorem pour_append (first second pending : List Ty) :
    pour (first ++ second) pending = pour second (pour first pending) := by
  cases pending with
  | nil => rfl
  | cons acc rest => exact congrArg (· :: rest) List.foldl_append

@[simp]
theorem length_pour (tys pending : List Ty) : (pour tys pending).length = pending.length := by
  cases pending <;> rfl

def Kind.Returns {ι : Type} : Kind ι → Prop
  | .ret _ => True
  | _ => False

instance {ι : Type} (kind : Kind ι) : Decidable kind.Returns := by
  cases kind <;> unfold Kind.Returns <;> infer_instance

def Silent (n : Nat) (events : List Event) : Prop :=
  ∀ node scope m, .visit node scope m ∈ events → (m.kind node).Returns → n < m.returns.length

theorem silent_append {n : Nat} {first second : List Event} :
    Silent n (first ++ second) ↔ Silent n first ∧ Silent n second := by
  simp only [Silent, List.mem_append, or_imp, forall_and]

/-! ## The static context -/

namespace Session

def within (s : Session) (static : Bool) (pending : List Ty) : Session :=
  { s with staticContext := static, returns := pending }

def DefinesPlainly (s : Session) (node : NodeRef) : Kind NodeId → Prop
  | .function (some locator) _ _ _ _ => ∀ target attr, s.kind (node.sibling locator) ≠ .member target attr
  | _ => False

theorem addReturn_within (s : Session) (ty : Ty) (static : Bool) (pending : List Ty) :
    (s.within static pending).addReturn ty = (s.addReturn ty).within static (pour [ty] pending) := by
  have kept : (s.addReturn ty).within static (pour [ty] pending) = s.within static (pour [ty] pending) := by
    unfold addReturn
    split <;> rfl
  rw [kept]
  cases pending <;> rfl

theorem popCall_within {s : Session} {acc : Ty} {rest : List Ty}
    (returned : s.returns = acc :: rest) (key : CallKey) (body : Ty)
    (static : Bool) (pending : List Ty) :
    (s.within static (acc :: pending)).popCall key body =
      ((s.popCall key body).1, (s.popCall key body).2.within static pending) := by
  have result : s.returns.headD .unknown = acc := by rw [returned]; rfl
  unfold popCall
  rw [result]
  rfl

section Within

variable (s : Session) (static : Bool) (pending : List Ty)

theorem moduleMemberWithin_within (name : String) (tiers : List Tier) (bound : Nat) :
    (s.within static pending).moduleMemberWithin name tiers bound =
      s.moduleMemberWithin name tiers bound := by
  induction bound with
  | zero => rfl
  | succ bound ih =>
    funext seen m
    unfold moduleMemberWithin
    rw [ih]
    rfl

theorem moduleMember?_within (m : ModuleId) (name : String) (tiers : List Tier) :
    (s.within static pending).moduleMember? m name tiers = s.moduleMember? m name tiers :=
  congrArg (fun ask => (ask [] m).1) (s.moduleMemberWithin_within static pending name tiers _)

theorem stationMember?_within (side : Side) (c : ClassId) (name : String) :
    (s.within static pending).stationMember? side c name = s.stationMember? side c name := by
  unfold stationMember?
  simp only [moduleMember?_within]
  rfl

theorem classMemberWithin_within (side : Side) (name : String) (bound : Nat) (seen : List ClassId)
    (c : ClassId) :
    (s.within static pending).classMemberWithin side name bound seen c =
      s.classMemberWithin side name bound seen c := by
  induction bound generalizing seen c with
  | zero => rfl
  | succ bound ih =>
    unfold classMemberWithin
    simp only [stationMember?_within, ih]
    rfl

theorem memberOf_within (name : String) (seen : List ClassId) (ty : Ty) :
    (s.within static pending).memberOf name seen ty = s.memberOf name seen ty := by
  unfold memberOf
  split
  · exact s.classMemberWithin_within ..
  · exact s.classMemberWithin_within ..
  · rw [moduleMember?_within]
  · rfl

theorem lookupMember?_within (ty : Ty) (name : String) :
    (s.within static pending).lookupMember? ty name = s.lookupMember? ty name := by
  have collected (seen : List ClassId) (out : List BindingId) (tys : List Ty) :
      (s.within static pending).collectMembers name seen out tys = s.collectMembers name seen out tys := by
    induction tys generalizing seen out with
    | nil => rfl
    | cons ty tys ih =>
      unfold collectMembers
      rw [memberOf_within]
      exact ih ..
  unfold lookupMember?
  rw [collected]

theorem isSome_lookupName?_within (scope : ScopeId) (name : String) :
    ((s.within static pending).lookupName? scope name).isSome = (s.lookupName? scope name).isSome := by
  unfold lookupName?
  show ((s.scopes.lookup? scope name (if static then _ else _)).or
      (s.scopes.lookup? scope name (if static then _ else _))).isSome = _
  cases static <;> cases s.staticContext <;> simp [Option.isSome_or, Bool.or_comm]

theorem isSome_lookupAround?_within (scope : ScopeId) (id : String) :
    ((s.within static pending).lookupAround? scope id).isSome = (s.lookupAround? scope id).isSome := by
  have known := s.isSome_lookupName?_within static pending scope id
  unfold lookupAround?
  rw [lookupMember?_within]
  cases there : (s.within static pending).lookupName? scope id <;> cases here :
    s.lookupName? scope id <;> simp_all
  rfl

theorem isSome_resolveName?_within (scope : ScopeId) (id : String) (kind : NameKind) :
    ((s.within static pending).resolveName? scope id kind).isSome =
      (s.resolveName? scope id kind).isSome := by
  have around := s.isSome_lookupAround?_within static pending scope id
  unfold resolveName?
  cases kind with
  | gvar => rfl
  | plain => exact around
  | ivar =>
    simp only [Option.isSome_or, around]
    rfl
  | cvar =>
    simp only [Option.isSome_or, around]
    rfl

theorem resolveName?_pending (scope : ScopeId) (id : String) (kind : NameKind) (others : List Ty) :
    (s.within static pending).resolveName? scope id kind =
      (s.within static others).resolveName? scope id kind := by
  unfold resolveName? lookupAround?
  simp only [lookupMember?_within]
  rfl

theorem settleReference_within (node : NodeRef) (id : String) (found : Option (List BindingId)) :
    (s.within static pending).settleReference node id found =
      ((s.settleReference node id found).1, (s.settleReference node id found).2.within static pending) := by
  have marked (t : Session) :
      (t.within static pending).markUnresolved node =
      (t.markUnresolved node).within static pending := by
    unfold markUnresolved
    simp only [apply_ite (fun t : Session => t.within static pending)]
    rfl
  unfold settleReference
  cases found with
  | some ids => rfl
  | none =>
    dsimp only
    split
    · rfl
    · split
      · rfl
      · split
        · rfl
        · exact congrArg (((.unknown, false) : Ty × Bool), ·)
            (marked (s.report node .error ("unbound variable " ++ id)))

theorem blockChain_within (ids : List ScopeId) :
    (s.within static pending).blockChain ids = s.blockChain ids := by
  induction ids with
  | nil => rfl
  | cons id ids ih =>
    unfold blockChain
    rw [ih]
    rfl

theorem bindName_within (node : NodeRef) (name : String) (nameKind : NameKind) (ty : Ty)
    (kind : BindingKind) (scope : ScopeId) :
    (s.within static pending).bindName node name nameKind ty kind scope =
      (s.bindName node name nameKind ty kind scope).within static pending := by
  have self : (s.within static pending).selfClass? scope = s.selfClass? scope := rfl
  have landing : (s.within static pending).localScope scope name = s.localScope scope name := by
    unfold localScope
    rw [blockChain_within]
    rfl
  unfold bindName
  rw [self, landing]
  cases nameKind with
  | plain => rfl
  | gvar => rfl
  | ivar => cases s.selfClass? scope <;> rfl
  | cvar => cases s.selfClass? scope <;> rfl

theorem bindMember_within (receiver : Ty) (attr : NodeRef) (ty : Ty) :
    (s.within static pending).bindMember receiver attr ty =
      (s.bindMember receiver attr ty).within static pending := by
  have called : (s.within static pending).nameOf? attr = s.nameOf? attr := rfl
  unfold bindMember
  rw [called]
  cases s.nameOf? attr with
  | none => rfl
  | some name =>
    dsimp only
    rw [lookupMember?_within]
    cases s.lookupMember? receiver name <;> rfl

theorem enterFrame_within (id : FunctionId) :
    (s.within static pending).enterFrame id =
      ((s.enterFrame id).1, (s.enterFrame id).2.within static pending) := by
  have record : (s.within static pending).function id = s.function id := rfl
  unfold enterFrame
  rw [record]
  dsimp only
  cases (s.function id).frame <;> rfl

theorem moduleFor_within (name qname : String) (parent : ScopeId) :
    (s.within static pending).moduleFor name qname parent =
      ((s.moduleFor name qname parent).1, (s.moduleFor name qname parent).2.within static pending) := by
  have known : (s.within static pending).moduleNamed? qname = s.moduleNamed? qname := rfl
  unfold moduleFor
  rw [known]
  cases s.moduleNamed? qname <;> rfl

theorem classFor_within (name qname : String) (parent : ScopeId) :
    (s.within static pending).classFor name qname parent =
      ((s.classFor name qname parent).1, (s.classFor name qname parent).2.within static pending) := by
  have known : (s.within static pending).classNamed? qname = s.classNamed? qname := rfl
  unfold classFor
  rw [known]
  cases s.classNamed? qname <;> rfl

theorem functionFor_within (node : NodeRef) (name : String) (env : ScopeId) (owner : Option Owner)
    (classLevel isLambda : Bool) :
    (s.within static pending).functionFor node name env owner classLevel isLambda =
      ((s.functionFor node name env owner classLevel isLambda).1,
        (s.functionFor node name env owner classLevel isLambda).2.within static pending) := by
  have known : (s.within static pending).functionOf? node = s.functionOf? node := rfl
  unfold functionFor
  rw [known]
  cases s.functionOf? node <;> rfl

theorem setBase_within (id : ClassId) (base : Option ClassId) :
    (s.within static pending).setBase id base = (s.setBase id base).within static pending := by
  cases base with
  | none => rfl
  | some b =>
    unfold setBase
    simp only [apply_ite (fun t : Session => t.within static pending)]
    rfl

theorem addUncalled_within (id : FunctionId) :
    (s.within static pending).addUncalled id = (s.addUncalled id).within static pending := by
  unfold addUncalled
  simp only [apply_ite (fun t : Session => t.within static pending)]
  rfl

theorem addMixin_within (owner : Owner) (m : ModuleId) :
    (s.within static pending).addMixin owner m = (s.addMixin owner m).within static pending := by
  cases owner with
  | classObj => rfl
  | moduleObj own =>
    unfold addMixin
    simp only [apply_ite (fun t : Session => t.within static pending)]
    rfl

theorem declareAttribute_within (instances : ScopeId) (arg : NodeRef) :
    (s.within static pending).declareAttribute instances arg =
      (s.declareAttribute instances arg).within static pending := by
  have written : (s.within static pending).kind arg = s.kind arg := rfl
  unfold declareAttribute
  rw [written]
  cases s.kind arg <;> rfl

end Within

end Session

/-- The static context matters: it decides on the tier of a method, or on what a name stands for. -/
def Event.Heeds : Event → Prop
  | visit node _ m => m.DefinesPlainly node (m.kind node)
  | change m n => ∃ node id kind scope, m.kind node = .name id kind ∧
      n = (m.settleReference node id (m.resolveName? scope id kind)).2 ∧
      (m.within (!m.staticContext) m.returns).resolveName? scope id kind ≠ m.resolveName? scope id kind

def Event.before : Event → Session
  | visit _ _ m => m
  | change m _ => m

/-- Side by side, the runs are in the same static context wherever it matters. -/
def Apart (events others : List Event) : Prop :=
  ∀ p ∈ events.zip others, p.1.before.staticContext ≠ p.2.before.staticContext → ¬p.1.Heeds

theorem Apart.left (apart : Apart (first ++ second) (others ++ rest)) : Apart first others := by
  induction first generalizing others with
  | nil => exact fun p mem => absurd mem List.not_mem_nil
  | cons e first ih =>
    cases others with
    | nil => exact fun p mem => absurd mem List.not_mem_nil
    | cons other others =>
      obtain ⟨head, tail⟩ := List.forall_mem_cons.mp apart
      exact List.forall_mem_cons.mpr ⟨head, ih tail⟩

theorem Apart.right (same : others.length = first.length)
    (apart : Apart (first ++ second) (others ++ rest)) : Apart second rest := by
  rw [Apart, List.zip_append same.symm] at apart
  exact fun p mem => apart p (List.mem_append_right _ mem)

/-! ## Computations -/

theorem Told.modifyGet_eq {s t : Session} {c : Session → α × Session} {a : α} (changed : c s = (a, t)) :
    (modifyGet c : Told α) s = (a, t, [.change s t]) :=
  congrArg (fun r : α × Session => (r.1, r.2, [Event.change s r.2])) changed

theorem Told.run_visiting {s t : Session} {y : Told α} {a : α} {events : List Event}
    (node : NodeRef) (scope : ScopeId) (told : y s = (a, t, events)) :
    (Told.visiting node scope >>= fun _ => y) s = (a, t, .visit node scope s :: events) :=
  congrArg (fun r : α × Session × List Event => (r.1, r.2.1, Event.visit node scope s :: r.2.2)) told

namespace Analysis

open Session

variable {s : Session} {x : Analysis α} {y : Told α} {f : α → Analysis β} {g : α → Told β}
    {before after events : List Event}
  {tys more : List Ty} {returning heeding : Prop}

/-- From elsewhere both computations do what they do from `s`, and the application under way there
returns these types as well. In another static context this is so unless it matters. -/
def SameFrom (s : Session) (x : Analysis α) (y : Told α) (events : List Event) (tys : List Ty)
    (heeding : Prop) : Prop :=
  ∀ static pending, (static = s.staticContext ∨ ¬heeding ∧ Apart events (y (s.within static pending)).2.2) →
    x.run (s.within static pending) = ((x.run s).1, (x.run s).2.within static (pour tys pending)) ∧
      ∃ others, y (s.within static pending) =
        ((x.run s).1, (x.run s).2.within static (pour tys pending), others) ∧
        others.length = events.length

theorem SameFrom.own (same : SameFrom s x y events tys heeding) :
    (x.run s).2 = (x.run s).2.within s.staticContext (pour tys s.returns) :=
  congrArg (·.2) (same s.staticContext s.returns (.inl rfl)).1

theorem SameFrom.bind (first : SameFrom s x y before tys heeding)
    (next : SameFrom (x.run s).2 (f (x.run s).1) (g (x.run s).1) after more heeding) :
    SameFrom s (x >>= f) (y >>= g) (before ++ after) (tys ++ more) heeding := by
  intro static pending place
  have early : static = s.staticContext ∨ ¬heeding ∧ Apart before (y (s.within static pending)).2.2 :=
    place.imp_right fun ⟨unheeding, apart⟩ => ⟨unheeding, Apart.left apart⟩
  obtain ⟨ran, others, toldThere, long⟩ := first static pending early
  have late : static = (x.run s).2.staticContext ∨
      ¬heeding ∧ Apart after (g (x.run s).1 ((x.run s).2.within static (pour tys pending))).2.2 := by
    rw [first.own]
    refine place.imp_right fun ⟨unheeding, apart⟩ => ⟨unheeding, ?_⟩
    have apart : Apart (before ++ after) ((y (s.within static pending)).2.2 ++
      (g (y (s.within static pending)).1 (y (s.within static pending)).2.1).2.2) := apart
    rw [toldThere] at apart
    exact apart.right long
  obtain ⟨ranOn, others', toldOn, longOn⟩ := next static (pour tys pending) late
  rw [pour_append]
  exact ⟨(run_bind ran f).trans ranOn, others ++ others', Told.run_bind toldThere toldOn, by
    simp [long, longOn]⟩

theorem SameFrom.pure (a : α) : SameFrom s (pure a) (pure a) [] [] heeding := by
  intro static pending _
  rw [pour_nil]
  exact ⟨rfl, [], rfl, rfl⟩

theorem SameFrom.modifyGet {c : Session → α × Session}
    (same : ∀ static pending, (static = s.staticContext ∨
      ¬heeding ∧ Apart [.change s (c s).2]
        [.change (s.within static pending) (c (s.within static pending)).2]) →
      c (s.within static pending) = ((c s).1, (c s).2.within static (pour tys pending))) :
    SameFrom s (modifyGet c) (modifyGet c) [.change s (c s).2] tys heeding := by
  intro static pending place
  have there := same static pending place
  exact ⟨there, _, Told.modifyGet_eq there, rfl⟩

/-- Both computations come to the same, also from elsewhere, and nothing is returned there unless
`return` is reached. -/
def Blind (s : Session) (x : Analysis α) (y : Told α) (returning heeding : Prop) : Prop :=
  ∃ events tys, y s = ((x.run s).1, (x.run s).2, events) ∧ SameFrom s x y events tys heeding ∧
    (¬returning → Silent s.returns.length events → tys = [])

namespace Blind

theorem weaken (blind : Blind s x y False False) : Blind s x y returning heeding := by
  obtain ⟨events, tys, told, same, silent⟩ := blind
  refine ⟨events, tys, told, fun static pending place => ?_, fun _ => silent id⟩
  exact same static pending (place.imp_right fun ⟨_, apart⟩ => ⟨id, apart⟩)

theorem bind (first : Blind s x y returning heeding)
    (next : Blind (x.run s).2 (f (x.run s).1) (g (x.run s).1) returning heeding) :
    Blind s (x >>= f) (y >>= g) returning heeding := by
  obtain ⟨before, tys, told, same, silent⟩ := first
  obtain ⟨after, more, toldOn, sameOn, silentOn⟩ := next
  refine ⟨before ++ after, tys ++ more, Told.run_bind told toldOn, same.bind sameOn,
    fun unreturning quiet => ?_⟩
  obtain ⟨early, late⟩ := silent_append.mp quiet
  have long : (x.run s).2.returns.length = s.returns.length := by
    rw [same.own]
    exact length_pour ..
  rw [silent unreturning early, silentOn unreturning (long.symm ▸ late)]
  rfl

theorem pure (a : α) : Blind s (pure a) (pure a) returning heeding := ⟨[], [], rfl, .pure a, fun _ _ => rfl⟩

theorem get {f : Session → Analysis β} {g : Session → Told β} (next : Blind s (f s) (g s) returning heeding)
    (same : ∀ static pending, static = s.staticContext ∨ ¬heeding →
      (f (s.within static pending), g (s.within static pending)) = (f s, g s)) :
    Blind s (MonadState.get >>= f) (MonadState.get >>= g) returning heeding := by
  obtain ⟨events, tys, there, sameOn, silent⟩ := next
  refine ⟨events, tys, there, fun static pending place => ?_, silent⟩
  obtain ⟨plain, told⟩ := Prod.mk.inj (same static pending (place.imp_right And.left))
  have place : static = s.staticContext ∨ ¬heeding ∧
      Apart events (g (s.within static pending) (s.within static pending)).2.2 := place
  show (f (s.within static pending)).run _ =
      (((f s).run s).1, ((f s).run s).2.within static (pour tys pending)) ∧
    ∃ others, g (s.within static pending) _ =
      (((f s).run s).1, ((f s).run s).2.within static (pour tys pending), others) ∧ _
  rw [told] at place
  rw [plain, told]
  exact sameOn static pending place

theorem modifyGet {c : Session → α × Session}
    (same : ∀ static pending, c (s.within static pending) = ((c s).1, (c s).2.within static pending)) :
    Blind s (modifyGet c) (modifyGet c) returning heeding := by
  refine ⟨_, [], rfl, .modifyGet fun static pending _ => ?_, fun _ _ => rfl⟩
  rw [pour_nil]
  exact same static pending

theorem visiting {node : NodeRef} {scope : ScopeId} (next : Blind s x y returning heeding)
    (returns : returning → (s.kind node).Returns)
    (heeds : heeding → s.DefinesPlainly node (s.kind node)) :
    Blind s x (Told.visiting node scope >>= fun _ => y) False False := by
  obtain ⟨events, tys, told, same, silent⟩ := next
  refine ⟨_, tys, Told.run_visiting node scope told, fun static pending place => ?_, fun _ quiet => ?_⟩
  · have inside : static = s.staticContext ∨ ¬heeding ∧ Apart events (y (s.within static pending)).2.2 := by
      refine Decidable.or_iff_not_imp_left.mpr fun other => ?_
      obtain ⟨-, apart⟩ := place.resolve_left other
      obtain ⟨head, tail⟩ := List.forall_mem_cons.mp apart
      exact ⟨fun matters => head (fun same => other same.symm) (heeds matters), tail⟩
    obtain ⟨ran, others, there, long⟩ := same static pending inside
    exact ⟨ran, _, Told.run_visiting node scope there, congrArg (· + 1) long⟩
  · refine silent (fun reached => ?_) fun node scope m mem => quiet node scope m (List.mem_cons_of_mem _ mem)
    exact Nat.lt_irrefl _ (quiet node scope s List.mem_cons_self (returns reached))

end Blind

end Analysis

end RubyInfer
