import RubyInfer.Proofs.Session.Reachable

/-!
# Analysis only adds

`Session.Extends` says what a later session keeps of an earlier one: bindings, scopes, functions,
classes and modules keep what defines them, and what they collect only grows. Every change of a run
extends the session as long as no union stands directly in a union, which all types respect; so do
runs, and so does all of ordinary analysis.
-/

namespace RubyInfer

def Ty.KnownIn (a b : Ty) : Prop := ∀ m ∈ a.members, m ≠ .unknown → m ∈ b.members

theorem Ty.KnownIn.trans {a b c : Ty} (first : a.KnownIn b) (second : b.KnownIn c) : a.KnownIn c :=
  fun m mem known => second m (first m mem known) known

theorem Ty.KnownIn.either {a b : Ty} (flatLeft : a.Flat) (flatRight : b.Flat) : a.KnownIn (a.either b) :=
  fun _ mem _ => mem_members_either flatLeft flatRight mem

theorem Ty.KnownIn.join {a b : Ty} (flatLeft : a.Flat) (flatRight : b.Flat) : a.KnownIn (a.join b) :=
  fun _ mem known => mem_members_join flatLeft flatRight mem known

/-! ## Records -/

structure Binding.Extends (a b : Binding) : Prop where
  name : b.name = a.name
  qname : b.qname = a.qname
  kind : b.kind = a.kind
  node : b.node = a.node
  body : b.body = a.body
  file : b.file = a.file
  refs : ∀ n ∈ a.refs, n ∈ b.refs
  ty : a.ty.KnownIn b.ty

theorem Binding.Extends.refl (a : Binding) : a.Extends a :=
  ⟨rfl, rfl, rfl, rfl, rfl, rfl, fun _ mem => mem, fun _ mem _ => mem⟩

theorem Binding.Extends.trans {a b c : Binding} (first : a.Extends b) (second : b.Extends c) :
    a.Extends c where
  name := second.name.trans first.name
  qname := second.qname.trans first.qname
  kind := second.kind.trans first.kind
  node := second.node.trans first.node
  body := second.body.trans first.body
  file := second.file.trans first.file
  refs n mem := second.refs n (first.refs n mem)
  ty := first.ty.trans second.ty

theorem Binding.extends_refineType {b : Binding} {ty : Ty} (flat : b.ty.Flat) (typed : ty.Flat) :
    b.Extends (b.refineType ty) :=
  ⟨rfl, rfl, rfl, rfl, rfl, rfl, fun _ mem => mem, .join flat typed⟩

theorem Binding.extends_addRef (b : Binding) (node : NodeRef) : b.Extends (b.addRef node) := by
  rw [Binding.addRef_eq]
  exact ⟨rfl, rfl, rfl, rfl, rfl, rfl, fun _ mem => Binding.mem_refs_addRef.mpr (.inl mem),
    fun _ mem _ => mem⟩

structure Scope.Extends (a b : Scope) : Prop where
  kind : b.kind = a.kind
  parent : b.parent = a.parent
  path : b.path = a.path
  table {key : Key} {ids : List BindingId} : a.table.lookup key = some ids →
      ∃ more, b.table.lookup key = some (ids ++ more)

theorem Scope.Extends.refl (a : Scope) : a.Extends a := ⟨rfl, rfl, rfl, fun here => ⟨[], by simpa using here⟩⟩

theorem Scope.Extends.trans {a b c : Scope} (first : a.Extends b) (second : b.Extends c) : a.Extends c where
  kind := second.kind.trans first.kind
  parent := second.parent.trans first.parent
  path := second.path.trans first.path
  table here := by
    obtain ⟨more, there⟩ := first.table here
    obtain ⟨most, last⟩ := second.table there
    exact ⟨more ++ most, by rw [last, List.append_assoc]⟩

theorem Scope.extends_add (a : Scope) (key : Key) (id : BindingId) : a.Extends (a.add key id) := by
  refine ⟨by rw [add_eq], by rw [add_eq], by rw [add_eq], fun {k ids} here => ?_⟩
  rw [lookup_add, here]
  split
  · obtain ⟨more, longer⟩ := Registry.prefix_addNew ids id
    exact ⟨more, by rw [longer]; rfl⟩
  · exact ⟨[], by simp⟩

structure FunctionRecord.Extends (a b : FunctionRecord) : Prop where
  node : b.node = a.node
  name : b.name = a.name
  qname : b.qname = a.qname
  env : b.env = a.env
  owner : b.owner = a.owner
  classLevel : b.classLevel = a.classLevel
  isLambda : b.isLambda = a.isLambda
  called : a.called = true → b.called = true
  frame {scope : ScopeId} : a.frame = some scope → b.frame = some scope
  ret : a.ret.KnownIn b.ret

theorem FunctionRecord.Extends.refl (a : FunctionRecord) : a.Extends a :=
  ⟨rfl, rfl, rfl, rfl, rfl, rfl, rfl, fun called => called, fun set => set, fun _ mem _ => mem⟩

theorem FunctionRecord.Extends.trans {a b c : FunctionRecord} (first : a.Extends b)
    (second : b.Extends c) : a.Extends c where
  node := second.node.trans first.node
  name := second.name.trans first.name
  qname := second.qname.trans first.qname
  env := second.env.trans first.env
  owner := second.owner.trans first.owner
  classLevel := second.classLevel.trans first.classLevel
  isLambda := second.isLambda.trans first.isLambda
  called was := second.called (first.called was)
  frame set := second.frame (first.frame set)
  ret := first.ret.trans second.ret

structure ClassRecord.Extends (a b : ClassRecord) : Prop where
  name : b.name = a.name
  qname : b.qname = a.qname
  scope : b.scope = a.scope
  instances : b.instances = a.instances
  base {c : ClassId} : a.base = some c → b.base = some c
  mixins : a.mixins <+: b.mixins

theorem ClassRecord.Extends.refl (a : ClassRecord) : a.Extends a :=
  ⟨rfl, rfl, rfl, rfl, fun set => set, List.prefix_rfl⟩

theorem ClassRecord.Extends.trans {a b c : ClassRecord} (first : a.Extends b)
    (second : b.Extends c) : a.Extends c where
  name := second.name.trans first.name
  qname := second.qname.trans first.qname
  scope := second.scope.trans first.scope
  instances := second.instances.trans first.instances
  base set := second.base (first.base set)
  mixins := first.mixins.trans second.mixins

structure ModuleRecord.Extends (a b : ModuleRecord) : Prop where
  name : b.name = a.name
  qname : b.qname = a.qname
  scope : b.scope = a.scope
  mixins : a.mixins <+: b.mixins

theorem ModuleRecord.Extends.refl (a : ModuleRecord) : a.Extends a := ⟨rfl, rfl, rfl, List.prefix_rfl⟩

theorem ModuleRecord.Extends.trans {a b c : ModuleRecord} (first : a.Extends b)
    (second : b.Extends c) : a.Extends c where
  name := second.name.trans first.name
  qname := second.qname.trans first.qname
  scope := second.scope.trans first.scope
  mixins := first.mixins.trans second.mixins

theorem prefix_appended {α : Type} [BEq α] (xs : List α) (x : α) :
    xs <+: if xs.contains x then xs else xs ++ [x] := by
  split
  · exact List.prefix_rfl
  · exact List.prefix_append ..

namespace Session

/-- What stands under a number still stands there, in a form that `rel` allows. -/
structure Kept {α : Type} (rel : α → α → Prop) (before after : Nat → Option α) : Prop where
  found {i : Nat} {a : α} : before i = some a → ∃ b, after i = some b ∧ rel a b

structure Extends (s t : Session) : Prop where
  bindings : Kept Binding.Extends s.registry.get? t.registry.get?
  scopes : Kept Scope.Extends (s.scopes.arena[·]?) (t.scopes.arena[·]?)
  functions : Kept FunctionRecord.Extends (s.functions[·]?) (t.functions[·]?)
  classes : Kept ClassRecord.Extends (s.classes[·]?) (t.classes[·]?)
  modules : Kept ModuleRecord.Extends (s.modules[·]?) (t.modules[·]?)
  loaded : s.loaded.paths <+: t.loaded.paths
  resolved : s.resolved <+: t.resolved
  diagnostics (file : Path) : s.diagnostics.forFile file <+: t.diagnostics.forFile file

/-! ## Keeping what is there -/

section Kept

variable {α : Type} {rel : α → α → Prop}

theorem Kept.refl (refl : ∀ a, rel a a) (f : Nat → Option α) : Kept rel f f := ⟨fun here => ⟨_, here, refl _⟩⟩

theorem Kept.trans {f g h : Nat → Option α} (first : Kept rel f g) (second : Kept rel g h)
    (trans : ∀ {a b c}, rel a b → rel b c → rel a c) : Kept rel f h := by
  refine ⟨fun here => ?_⟩
  obtain ⟨b, there, left⟩ := first.found here
  obtain ⟨c, last, right⟩ := second.found there
  exact ⟨c, last, trans left right⟩

theorem Kept.push (refl : ∀ a, rel a a) (xs : Array α) (x : α) : Kept rel (xs[·]?) ((xs.push x)[·]?) := by
  refine ⟨fun {i a} here => ?_⟩
  have inRange : i < xs.size := (Array.getElem?_eq_some_iff.mp here).1
  refine ⟨a, ?_, refl a⟩
  show (xs.push x)[i]? = some a
  rw [Array.getElem?_push, if_neg (Nat.ne_of_lt inRange)]
  exact here

theorem Kept.modify (refl : ∀ a, rel a a) {xs : Array α} {i : Nat} {f : α → α}
    (changed : ∀ a, xs[i]? = some a → rel a (f a)) :
    Kept rel (xs[·]?) ((xs.modify i f)[·]?) := by
  refine ⟨fun {j a} here => ?_⟩
  by_cases same : i = j
  · subst same
    exact ⟨f a, by simp [Array.getElem?_modify, show xs[i]? = some a from here], changed a here⟩
  · exact ⟨a, by simpa [Array.getElem?_modify, same] using here, refl a⟩

end Kept

variable {s t u : Session}

theorem Extends.refl (s : Session) : Extends s s where
  bindings := .refl Binding.Extends.refl _
  scopes := .refl Scope.Extends.refl _
  functions := .refl FunctionRecord.Extends.refl _
  classes := .refl ClassRecord.Extends.refl _
  modules := .refl ModuleRecord.Extends.refl _
  loaded := List.prefix_rfl
  resolved := List.prefix_rfl
  diagnostics _ := List.prefix_rfl

theorem Extends.trans (first : Extends s t) (second : Extends t u) : Extends s u where
  bindings := first.bindings.trans second.bindings Binding.Extends.trans
  scopes := first.scopes.trans second.scopes Scope.Extends.trans
  functions := first.functions.trans second.functions FunctionRecord.Extends.trans
  classes := first.classes.trans second.classes ClassRecord.Extends.trans
  modules := first.modules.trans second.modules ModuleRecord.Extends.trans
  loaded := first.loaded.trans second.loaded
  resolved := first.resolved.trans second.resolved
  diagnostics file := (first.diagnostics file).trans (second.diagnostics file)

/-! ## Stores -/

theorem kept_modify {r : Registry} {id : BindingId} {f : Binding → Binding}
    (same : ∀ b, (f b).definition = b.definition) (changed : ∀ b, r.get? id = some b → b.Extends (f b)) :
    Kept Binding.Extends r.get? (r.modify id f same).get? := by
  refine ⟨fun {j b} here => ?_⟩
  refine ⟨_, by rw [Registry.get?_modify, here]; rfl, ?_⟩
  split
  · rename_i same
    exact changed b (same ▸ here)
  · exact .refl b

theorem kept_register {r : Registry} (b : Binding) (flat : b.ty.Flat)
    (typed : ∀ {id old}, r.get? id = some old → old.ty.Flat) :
    Kept Binding.Extends r.get? (r.register b).2.get? := by
  obtain ⟨id, old, live, -, same⟩ | ⟨new, pushed⟩ := r.register_cases b
  · rw [same]
    exact kept_modify (Binding.definition_mergeType b.ty) fun old here =>
      ⟨rfl, rfl, rfl, rfl, rfl, rfl, fun _ mem => mem, .either (typed here) flat⟩
  · rw [pushed]
    refine ⟨fun {j old} here => ⟨old, ?_, .refl old⟩⟩
    rw [Registry.get?_push, if_neg (Nat.ne_of_lt (Registry.lt_size_of_get? here))]
    exact here

theorem kept_refineAttributes {ids : List BindingId} {ty : Ty} (flat : ty.Flat)
    (typed : ∀ {id b}, s.registry.get? id = some b → b.ty.Flat) :
    Kept Binding.Extends s.registry.get? (s.refineAttributes ids ty).registry.get? := by
  have repeated (times : List BindingId) : ∀ b : Binding, b.ty.Flat →
      b.Extends (times.foldl (fun b _ => b.refineAttribute ty) b) := by
    induction times with
    | nil => exact fun b _ => .refl b
    | cons _ times ih =>
      intro b flatBinding
      rw [List.foldl_cons, Binding.refineAttribute]
      split
      · exact (Binding.extends_refineType flatBinding flat).trans
          (ih _ (Ty.flat_closed.join flatBinding flat))
      · exact ih b flatBinding
  refine ⟨fun {id b} here => ?_⟩
  unfold refineAttributes
  rw [Registry.get?_modifyAll, here]
  exact ⟨_, rfl, repeated _ b (typed here)⟩

theorem kept_putRef (r : Registry) (node : NodeRef) (ids : List BindingId) :
    Kept Binding.Extends r.get? (r.putRef node ids).get? := by
  refine ⟨fun {id b} here => ?_⟩
  rw [Registry.get?_putRef, here]
  refine ⟨_, rfl, ?_⟩
  split
  · exact b.extends_addRef node
  · exact .refl b

theorem kept_enter (sc : Scopes) (scope : ScopeId) (name : String) (tier : Tier) (id : BindingId) :
    Kept Scope.Extends (sc.arena[·]?) ((sc.enter scope name tier id).arena[·]?) :=
  .modify Scope.Extends.refl fun a _ => a.extends_add ⟨name, tier⟩ id

theorem kept_pushScope (sc : Scopes) (kind : ScopeKind) (parent : Option ScopeId) (path : String) :
    Kept Scope.Extends (sc.arena[·]?) ((sc.push kind parent path).2.arena[·]?) := .push Scope.Extends.refl ..

/-! ## Changes -/

theorem Update.extends (step : Update .flat s t) (sound : s.Sound .flat) : Extends s t := by
  have same := Extends.refl s
  cases step with
  | bind scope tier name node body kind ty _ typed =>
    exact { same with bindings := kept_register _ typed sound.bindings, scopes := kept_enter .. }
  | enter scope name tier id => exact { same with scopes := kept_enter .. }
  | refineAttributes ids ty typed =>
    exact { same with bindings := kept_refineAttributes typed sound.bindings }
  | refer node ids =>
    refine { same with bindings := kept_putRef .., resolved := ?_ }
    show s.resolved <+: if s.resolved.contains node then s.resolved else s.resolved ++ [node]
    exact prefix_appended ..
  | report node id => exact { same with diagnostics := s.diagnostics.prefix_forFile_push _ }
  | newModule name qname parent =>
    exact { same with scopes := kept_pushScope .., modules := .push ModuleRecord.Extends.refl .. }
  | newClass name qname parent =>
    exact { same with
      scopes := (kept_pushScope ..).trans (kept_pushScope ..) Scope.Extends.trans
      classes := .push ClassRecord.Extends.refl .. }
  | setBase id base other unset =>
    refine { same with classes := .modify ClassRecord.Extends.refl fun c here => ?_ }
    have free : c.base = none := by simpa [classRecord, here] using unset
    exact { ClassRecord.Extends.refl c with base := fun set => by simp [free] at set }
  | mixIntoClass c m =>
    refine { same with classes := .modify ClassRecord.Extends.refl fun r _ => ?_ }
    exact { ClassRecord.Extends.refl r with mixins := prefix_appended r.mixins m }
  | mixIntoModule own m =>
    refine { same with modules := .modify ModuleRecord.Extends.refl fun r _ => ?_ }
    exact { ModuleRecord.Extends.refl r with mixins := prefix_appended r.mixins m }
  | newFunction => exact { same with functions := .push FunctionRecord.Extends.refl .. }
  | markCalled id =>
    refine { same with functions := .modify FunctionRecord.Extends.refl fun f _ => ?_ }
    exact { FunctionRecord.Extends.refl f with called := fun _ => rfl }
  | newFrame id kind unset =>
    refine { same with
      scopes := kept_pushScope .., functions := .modify FunctionRecord.Extends.refl fun f here => ?_ }
    have free : f.frame = none := by simpa [function, here] using unset
    exact { FunctionRecord.Extends.refl f with frame := fun set => by simp [free] at set }
  | recordFailure file => exact { same with diagnostics := s.diagnostics.prefix_forFile_push _ }
  | loaded file => exact { same with loaded := s.loaded.prefix_insert file }
  | _ => exact ⟨same.bindings, same.scopes, same.functions, same.classes, same.modules, same.loaded,
      same.resolved, same.diagnostics⟩

theorem Change.extends (change : Change .flat s t) (sound : s.Sound .flat) : Extends s t := by
  have same := Extends.refl s
  cases change with
  | update step => exact step.extends sound
  | pushCall key =>
    refine { same with functions := .modify FunctionRecord.Extends.refl fun f _ => ?_ }
    exact { FunctionRecord.Extends.refl f with }
  | popCall key result typed =>
    refine { same with functions := .modify FunctionRecord.Extends.refl fun f here => ?_ }
    have flat : (result.join (s.returns.headD .unknown)).Flat := Ty.flat_closed.join typed sound.returned
    exact { FunctionRecord.Extends.refl f with ret := .join (sound.functions here).1 flat }
  | _ => exact ⟨same.bindings, same.scopes, same.functions, same.classes, same.modules, same.loaded,
      same.resolved, same.diagnostics⟩

theorem Runs.extends (run : Runs .flat s t) (sound : s.Sound .flat) : Extends s t :=
  (run.lift_sound Extends.refl Extends.trans Change.extends sound).2

/-! ## Analysis -/

theorem Advance.extends (step : Advance s t) (atTop : s.depth = 0) (sound : s.Sound .flat) :
    t.depth = 0 ∧ Extends s t := by
  have same := Extends.refl s
  cases step with
  | begin | prewarm =>
    exact ⟨atTop, same.bindings, same.scopes, same.functions, same.classes, same.modules,
      same.loaded, same.resolved,
      same.diagnostics⟩
  | load path force =>
    have run := runs_load sound atTop path force
    exact ⟨run.guards.depth.trans atTop, run.extends sound⟩
  | drain id =>
    have added := (runs_apply sound atTop id).extends sound
    exact ⟨rfl, added.bindings, added.scopes, added.functions, added.classes, added.modules,
      added.loaded, added.resolved,
      added.diagnostics⟩

theorem Advances.extends (steps : Advances s t) (atTop : s.depth = 0) (sound : s.Sound .flat) :
    t.depth = 0 ∧ t.Sound .flat ∧ Extends s t := by
  induction steps with
  | refl => exact ⟨atTop, sound, .refl s⟩
  | step _ last ih =>
    obtain ⟨stillAtTop, stillSound, before⟩ := ih
    obtain ⟨ended, after⟩ := last.extends stillAtTop stillSound
    exact ⟨ended, last.sound stillAtTop stillSound, before.trans after⟩

/-- The sessions that analysis passes through: those between operations, and those that single
changes lead to from there. -/
inductive Underway : Session → Prop
  | reached {s : Session} (reached : Reachable s) : Underway s
  | change {s t : Session} (before : Underway s) (step : Change .flat s t) : Underway t

theorem Underway.sound (underway : Underway s) : s.Sound .flat := by
  induction underway with
  | reached reached => exact reached.passed.sound
  | change _ step sound => exact step.sound sound

/-- A step of ordinary analysis. Calls are made at any depth and with any arguments in whose types
no union stands directly in a union; projects are analyzed and functions drained from the top. -/
inductive Analyzes (s : Session) : Session → Prop
  | call (c : Call) (fits : c.Fits .flat s) : Analyzes s (s.call c)
  | analyze {t : Session} {root : Path} (atTop : s.depth = 0) (done : s.analyze root = .ok t) : Analyzes s t
  | drainRound (atTop : s.depth = 0) : Analyzes s s.drainRound
  | drain {t : Session} {rounds : Nat} (atTop : s.depth = 0) (drained : drain? rounds s = some t) :
      Analyzes s t

/-- **Analysis only grows the session.** -/
theorem extends_of_analyzes (underway : Underway s) (step : Analyzes s t) : Extends s t := by
  have sound := underway.sound
  cases step with
  | call c fits => exact (runs_call sound c fits).extends sound
  | analyze atTop done => exact ((advances_analyze done).extends atTop sound).2.2
  | drainRound atTop => exact ((advances_drainRound s).extends atTop sound).2.2
  | drain atTop drained => exact ((advances_drain drained).extends atTop sound).2.2

/-- A method that no one has called, with a variable of its own. -/
def waiting : Session :=
  ((project [("a.rb", defining "f" ""
    (statements [assigning "y" (naming "f"), naming "y"]))]).loadFile ⟨"/a.rb"⟩).2

/-- The method is applied: it counts as called from then on, its variable is bound and referred to,
and nothing is lost. -/
theorem extends_of_analyzes_apply :
    Underway waiting ∧ Analyzes waiting (waiting.call (.apply 0 .unknown {})) ∧
      Extends waiting (waiting.call (.apply 0 .unknown {})) ∧
      ((waiting.function 0).called, waiting.resolved.length, waiting.registry.slots.size) = (false, 0, 1) ∧
      (((waiting.call (.apply 0 .unknown {})).function 0).called,
        (waiting.call (.apply 0 .unknown {})).resolved.length,
        (waiting.call (.apply 0 .unknown {})).registry.slots.size) = (true, 2, 3) := by
  have underway : Underway waiting := .reached ((reachable_project _).loadFile ⟨"/a.rb"⟩)
  have applied : Analyzes waiting (waiting.call (.apply 0 .unknown {})) :=
    .call _ ⟨Ty.flat_closed.unknown, .none⟩
  refine ⟨underway, applied, extends_of_analyzes underway applied, ?_⟩
  decide +kernel

end Session

end RubyInfer
