import RubyInfer.Proofs.Session.Inference
import RubyInfer.Proofs.Session.Standpoint

/-!
# Inference takes a course

`Tells` says that a computation and its telling counterpart come to the same, and that what is told
is a course between the two sessions. It has a rule for each way in which computations are put
together. `tell_hears` closes the recursion: whatever node is inferred, the events that are told on
the way are a course from the session before to the session after. The same induction shows that a
run that heeds nothing around it is the same from any other place (`Blind`).
-/

namespace RubyInfer

namespace Session

variable {s t u : Session}

/-! ## Quiet steps -/

def surroundings (s : Session) :=
  (s.options, s.files, s.cache, s.projectDir, s.cwd, s.depth, s.exhausted, s.importStack,
    s.callStack, s.loaded, s.failed)

theorem Quiet.of (kept : t.surroundings = s.surroundings)
    (failures : ∀ file, t.diagnostics.failures file = s.diagnostics.failures file)
    (size : s.functions.size ≤ t.functions.size)
    (active : ∀ id, (t.function id).active = (s.function id).active) (classes : s.classNames <+: t.classNames)
    (modules : s.moduleNames <+: t.moduleNames) : Quiet s t := by
  simp only [surroundings, Prod.mk.injEq] at kept
  obtain ⟨options, files, cache, projectDir, cwd, depth, exhausted, importStack, callStack, loaded,
      failed⟩ := kept
  exact ⟨options, files, cache, projectDir, cwd, depth, exhausted, importStack, callStack, loaded,
    failed, failures, size, active, classes,
    modules⟩

theorem Quiet.ofFunctions
    (kept : (t.surroundings, t.diagnostics, t.classes, t.modules) =
      (s.surroundings, s.diagnostics, s.classes, s.modules))
    (size : s.functions.size ≤ t.functions.size)
    (active : ∀ id, (t.function id).active = (s.function id).active) : Quiet s t := by
  obtain ⟨around, diagnostics, classes, modules⟩ :
      t.surroundings = s.surroundings ∧ t.diagnostics = s.diagnostics ∧ t.classes = s.classes ∧
        t.modules = s.modules := by
    simpa only [Prod.mk.injEq] using kept
  have classNames : t.classNames = s.classNames :=
    congrArg (fun cs : Array ClassRecord => cs.toList.map ClassRecord.qname) classes
  have moduleNames : t.moduleNames = s.moduleNames :=
    congrArg (fun ms : Array ModuleRecord => ms.toList.map ModuleRecord.qname) modules
  exact .of around (fun _ => by rw [diagnostics]) size active (classNames ▸ List.prefix_rfl)
    (moduleNames ▸ List.prefix_rfl)

theorem Quiet.same (kept : (t.surroundings, t.diagnostics, t.classes, t.modules) =
    (s.surroundings, s.diagnostics, s.classes, s.modules))
    (functions : t.functions = s.functions) : Quiet s t :=
  .ofFunctions kept (Nat.le_of_eq (congrArg Array.size functions.symm))
    (fun id => congrArg FunctionRecord.active (function_of_eq functions id))

theorem Quiet.ofNames (kept : (t.surroundings, t.diagnostics, t.functions) =
    (s.surroundings, s.diagnostics, s.functions))
    (classes : s.classNames <+: t.classNames) (modules : s.moduleNames <+: t.moduleNames) : Quiet s t := by
  obtain ⟨around, diagnostics, functions⟩ :
      t.surroundings = s.surroundings ∧ t.diagnostics = s.diagnostics ∧ t.functions = s.functions := by
    simpa only [Prod.mk.injEq] using kept
  exact .of around (fun _ => by rw [diagnostics]) (Nat.le_of_eq (congrArg Array.size functions.symm))
    (fun id => congrArg FunctionRecord.active (function_of_eq functions id)) classes modules

theorem names_modify {α : Type} {name : α → String} {change : α → α}
    (kept : ∀ a, name (change a) = name a) (records : Array α) (id : Nat) :
    records.toList.map name <+: (records.modify id change).toList.map name := by
  have same : (records.modify id change).toList.map name = records.toList.map name := by
    apply List.ext_getElem?
    intro i
    simp only [List.getElem?_map, Array.getElem?_toList, Array.getElem?_modify]
    split
    · simp [Function.comp_def, kept]
    · rfl
  exact same ▸ List.prefix_rfl

theorem names_push {α : Type} {name : α → String} (records : Array α) (a : α) :
    records.toList.map name <+: (records.push a).toList.map name := by
  rw [Array.toList_push, List.map_append]
  exact List.prefix_append ..

theorem failed_ne_unbound (id : String) : "unbound variable " ++ id ≠ "failed to parse" := by
  intro same
  have letters := congrArg String.toList same
  simp at letters

theorem quiet_settleReference (node : NodeRef) (id : String) (found : Option (List BindingId)) :
    Quiet s (s.settleReference node id found).2 := by
  unfold settleReference
  split
  · exact .same rfl rfl
  · split
    · exact .same rfl rfl
    · split
      · exact .same rfl rfl
      · split
        · exact .same rfl rfl
        · have failures (file : Path) :
              (s.diagnostics.push (s.unboundReport node id)).failures file =
              s.diagnostics.failures file :=
            Diagnostics.failures_push (.inl (failed_ne_unbound id)) s.diagnostics
          unfold markUnresolved
          split <;> exact .of rfl failures (Nat.le_refl _) (fun _ => rfl) List.prefix_rfl List.prefix_rfl

theorem quiet_bindName (node : NodeRef) (name : String) (nameKind : NameKind) (ty : Ty)
    (kind : BindingKind) (scope : ScopeId) :
    Quiet s (s.bindName node name nameKind ty kind scope) := by
  unfold bindName
  dsimp only
  split
  · exact .same rfl rfl
  · split <;> exact .same rfl rfl
  · split <;> exact .same rfl rfl
  · exact .same rfl rfl

theorem quiet_bindMember (receiver : Ty) (attr : NodeRef) (ty : Ty) :
    Quiet s (s.bindMember receiver attr ty) := by
  unfold bindMember
  split
  · exact .same rfl rfl
  · split <;> exact .same rfl rfl

theorem quiet_enterFrame (id : FunctionId) : Quiet s (s.enterFrame id).2 := by
  unfold enterFrame
  dsimp only
  split
  · exact .same rfl rfl
  · exact .ofFunctions rfl (Nat.le_of_eq (Array.size_modify ..).symm)
      (active_modifyFunction (f := fun r => { r with frame := some _ }) (fun _ => rfl) s id)

theorem quiet_markCalled (id : FunctionId) : Quiet s (s.markCalled id) :=
  .ofFunctions rfl (Nat.le_of_eq (Array.size_modify ..).symm)
    (active_modifyFunction (f := fun r => { r with called := true }) (fun _ => rfl) s id)

theorem quiet_moduleFor (name qname : String) (parent : ScopeId) :
    Quiet s (s.moduleFor name qname parent).2 := by
  unfold moduleFor
  split
  · exact .same rfl rfl
  · exact .ofNames rfl List.prefix_rfl (names_push ..)

theorem quiet_classFor (name qname : String) (parent : ScopeId) :
    Quiet s (s.classFor name qname parent).2 := by
  unfold classFor
  split
  · exact .same rfl rfl
  · exact .ofNames rfl (names_push ..) List.prefix_rfl

theorem quiet_setBase (id : ClassId) (base : Option ClassId) : Quiet s (s.setBase id base) := by
  unfold setBase
  split
  · split
    · exact .ofNames rfl (names_modify (by exact fun _ => rfl) ..) List.prefix_rfl
    · exact .same rfl rfl
  · exact .same rfl rfl

theorem quiet_functionFor (node : NodeRef) (name : String) (env : ScopeId) (owner : Option Owner)
    (classLevel isLambda : Bool) :
    Quiet s (s.functionFor node name env owner classLevel isLambda).2 := by
  unfold functionFor
  split
  · exact .same rfl rfl
  · exact .ofFunctions rfl (by simp) (s.active_push _ rfl)

theorem quiet_addUncalled (id : FunctionId) : Quiet s (s.addUncalled id) := by
  unfold addUncalled
  split <;> exact .same rfl rfl

theorem quiet_addMixin (owner : Owner) (m : ModuleId) : Quiet s (s.addMixin owner m) := by
  unfold addMixin
  dsimp only
  split
  · exact .ofNames rfl (names_modify (by exact fun _ => rfl) ..) List.prefix_rfl
  · split
    · exact .same rfl rfl
    · exact .ofNames rfl List.prefix_rfl (names_modify (by exact fun _ => rfl) ..)

theorem quiet_declareAttribute (instances : ScopeId) (arg : NodeRef) :
    Quiet s (s.declareAttribute instances arg) := by
  unfold declareAttribute
  dsimp only
  split <;> exact .same rfl rfl

theorem quiet_addReturn (ty : Ty) : Quiet s (s.addReturn ty) := by
  unfold addReturn
  split <;> exact .same rfl rfl

/-! ## Later sessions -/

structure Later (s t : Session) : Prop where
  options : t.options = s.options
  depth : t.depth = s.depth
  trees : s.cache.trees.toList <+: t.cache.trees.toList

theorem Later.refl (s : Session) : Later s s := ⟨rfl, rfl, List.prefix_rfl⟩

theorem Later.trans (first : Later s t) (second : Later t u) : Later s u :=
  ⟨second.options.trans first.options, second.depth.trans first.depth, first.trees.trans second.trees⟩

theorem Steady.later (kept : Steady s t) : Later s t := ⟨kept.options, kept.depth, kept.trees⟩

theorem Quiet.later (quiet : Quiet s t) : Later s t := quiet.steady.later

theorem Part.after {node : NodeRef} (part : s.Part node) (later : Later s t) : t.Part node := by
  obtain ⟨parent, mem⟩ := part
  refine ⟨parent, ?_⟩
  rwa [kind_retained later.trees]
  intro void
  rw [void] at mem
  cases mem

def Parts {γ : Type} [Membership NodeId γ] (s : Session) (node : NodeRef) (ids : γ) : Prop :=
  ∀ id ∈ ids, s.Part (node.sibling id)

section

variable {γ : Type} [Membership NodeId γ] {node : NodeRef} {ids : γ} {all : List NodeId}

theorem Parts.after (parts : s.Parts node ids) (later : Later s t) : t.Parts node ids :=
  fun id mem => (parts id mem).after later

theorem Parts.sub (parts : s.Parts node all)
    (sub : ∀ id ∈ ids, id ∈ all := by simp +contextual [Kind.parts, Kind.children]) :
    s.Parts node ids := fun id mem => parts id (sub id mem)

theorem Parts.one (parts : s.Parts node all) {id : NodeId}
    (mem : id ∈ all := by simp [Kind.parts, Kind.children]) :
    s.Part (node.sibling id) := parts id mem

theorem parts_append {before after : List NodeId} :
    s.Parts node (before ++ after) ↔ s.Parts node before ∧ s.Parts node after := by
  simp only [Parts, List.mem_append, or_imp, forall_and]

theorem parts_toList {o : Option NodeId} : s.Parts node o.toList ↔ s.Parts node o := by
  simp only [Parts, Option.mem_toList, Option.mem_def]

theorem parts_cons {id : NodeId} : s.Parts node (id :: all) ↔ s.Part (node.sibling id) ∧
    s.Parts node all := List.forall_mem_cons

theorem parts_of_kind {kind : Kind NodeId} (written : s.kind node = kind) : s.Parts node kind.parts :=
  fun _ mem => ⟨node.id, written ▸ mem⟩

theorem parts_function {locator body : Option NodeId} {params : Params NodeId} {isLambda : Bool}
    {doc : Option String} :
    s.Parts node (Kind.function locator params body isLambda doc).parts ↔
      s.Parts node locator ∧ s.Parts node params.children ∧ s.Parts node body := by
  simp only [Kind.parts, Kind.children, parts_append, parts_toList, and_assoc]

theorem parts_call {func : NodeId} {args keywords : List NodeId} {star block : Option NodeId} :
    s.Parts node (Kind.call func args keywords star block).parts ↔
      s.Part (node.sibling func) ∧ s.Parts node args ∧ s.Parts node keywords ∧ s.Parts node star ∧
        s.Parts node block := by
  simp only [Kind.parts, Kind.children, parts_cons, parts_append, parts_toList, and_assoc]

theorem part_of_member {target attr : NodeId} (written : s.kind node = .member target attr) :
    s.Part (node.sibling target) :=
  (parts_cons.mp (parts_of_kind written)).1

end

end Session

namespace Analysis

open Session

variable {p : Prop} {s t : Session} {α β : Type}

/-- From `s` both computations come to the same, what the second tells is a course, and from
elsewhere it is the same. -/
def Tells (p : Prop) (o : Option NodeRef) (s : Session) (x : Analysis α) (y : Told α)
    (returning heeding : Prop := False) : Prop :=
  ∃ events, y s = ((x.run s).1, (x.run s).2, events) ∧ Course p o s events (x.run s).2 ∧
    Blind s x y returning heeding

namespace Tells

variable {x : Analysis α} {y : Told α} {f : α → Analysis β} {g : α → Told β}
    {returning heeding : Prop} {c : Session → Session}

theorem split {o : Option NodeRef} (tells : Tells p o s x y) :
    ∃ a t events, x.run s = (a, t) ∧ y s = (a, t, events) ∧ Course p o s events t := by
  obtain ⟨events, same, course, -⟩ := tells
  exact ⟨_, _, events, rfl, same, course⟩

theorem later {o : Option NodeRef} (tells : Tells p o s x y) : Later s (x.run s).2 := by
  obtain ⟨events, -, course, -⟩ := tells
  exact course.steady.later

theorem pure (b : β) : Tells p none s (pure b) (pure b) returning heeding := ⟨[], rfl, .nil s, .pure b⟩

theorem bindHere (first : Tells p none s x y)
    (next : Tells p none (x.run s).2 (f (x.run s).1) (g (x.run s).1) returning heeding) :
    Tells p none s (x >>= f) (y >>= g) returning heeding := by
  obtain ⟨before, same, course, blind⟩ := first
  obtain ⟨after, sameRest, rest, blindRest⟩ := next
  exact ⟨before ++ after, Told.run_bind same sameRest, course.append rest, blind.weaken.bind blindRest⟩

theorem bindSteady (first : Tells p none s x y)
    (next : ∀ a t, Steady s t → Tells p none t (f a) (g a) returning heeding) :
    Tells p none s (x >>= f) (y >>= g) returning heeding := by
  obtain ⟨events, same, course, blind⟩ := first
  exact bindHere ⟨events, same, course, blind⟩ (next _ _ course.steady)

theorem bind (first : Tells p none s x y)
    (next : ∀ a t, Later s t → Tells p none t (f a) (g a) returning heeding) :
    Tells p none s (x >>= f) (y >>= g) returning heeding :=
  first.bindSteady fun a t kept => next a t kept.later

theorem getHeeding {f : Session → Analysis β} {g : Session → Told β}
    (same : ∀ static pending, static = s.staticContext ∨ ¬heeding →
      (f (s.within static pending), g (s.within static pending)) = (f s, g s))
    (next : Tells p none s (f s) (g s) returning heeding) :
    Tells p none s (get >>= f) (get >>= g) returning heeding := by
  obtain ⟨events, told, course, blind⟩ := next
  exact ⟨events, told, course, blind.get same⟩

theorem get {f : Session → Analysis β} {g : Session → Told β}
    (same : ∀ static pending, (f (s.within static pending), g (s.within static pending)) = (f s, g s))
    (next : Tells p none s (f s) (g s) returning heeding) :
    Tells p none s (get >>= f) (get >>= g) returning heeding :=
  next.getHeeding fun static pending _ => same static pending

theorem result {f : α → β} (first : Tells p none s x y) :
    Tells p none s (x >>= fun a => Pure.pure (f a)) (y >>= fun a => Pure.pure (f a)) returning heeding :=
  first.bind fun _ _ _ => pure _

theorem modifyGet {c : Session → β × Session} (quiet : Quiet s (c s).2)
    (same : ∀ static pending, c (s.within static pending) = ((c s).1, (c s).2.within static pending)) :
    Tells p none s (modifyGet c) (modifyGet c) returning heeding := ⟨_, rfl, .quiet quiet, .modifyGet same⟩

theorem modify (quiet : Quiet s (c s))
    (same : ∀ static pending, c (s.within static pending) = (c s).within static pending) :
    Tells p none s (modify c) (modify c) returning heeding :=
  modifyGet (c := fun s => (PUnit.unit, c s)) quiet fun static pending =>
    congrArg (PUnit.unit, ·) (same static pending)

theorem updateGet {c : Session → α × Session} (quiet : Quiet s (c s).2)
    (same : ∀ static pending, c (s.within static pending) = ((c s).1, (c s).2.within static pending))
    (next : Later s (c s).2 → Tells p none (c s).2 (f (c s).1) (g (c s).1) returning heeding) :
    Tells p none s (MonadState.modifyGet c >>= f) (MonadState.modifyGet c >>= g) returning heeding :=
  bindHere (modifyGet quiet same) (next quiet.later)

theorem update {f : PUnit → Analysis β} {g : PUnit → Told β} (quiet : Quiet s (c s))
    (same : ∀ static pending, c (s.within static pending) = (c s).within static pending)
    (next : Later s (c s) → Tells p none (c s) (f ⟨⟩) (g ⟨⟩) returning heeding) :
    Tells p none s (MonadState.modifyGet (fun s => (PUnit.unit, c s)) >>= f)
      (MonadState.modifyGet (fun s => (PUnit.unit, c s)) >>= g) returning heeding :=
  bindHere (modify quiet same) (next quiet.later)

theorem discard (tells : Tells p none s x y) : Tells p none s (Functor.discard x) (Functor.discard y) :=
  tells.bind fun _ _ _ => pure _

theorem forM {xs : List α} {f : α → Analysis PUnit} {g : α → Told PUnit}
    (each : ∀ a ∈ xs, ∀ t, Later s t → Tells p none t (f a) (g a)) :
    Tells p none s (xs.forM f) (xs.forM g) := by
  induction xs generalizing s with
  | nil => exact pure _
  | cons a xs ih =>
    refine bind (each a List.mem_cons_self s (.refl s)) fun _ t kept => ?_
    exact ih fun b mem u later => each b (List.mem_cons_of_mem a mem) u (kept.trans later)

theorem forMIdle {xs : List α} {f : α → Analysis PUnit} {g : α → Told PUnit}
    (each : ∀ a ∈ xs, ((f a).run s).2 = s ∧ Tells p none s (f a) (g a)) :
    Tells p none s (xs.forM f) (xs.forM g) := by
  induction xs with
  | nil => exact pure _
  | cons a xs ih =>
    obtain ⟨⟨idle, tells⟩, others⟩ := List.forall_mem_cons.mp each
    refine bindHere tells ?_
    rw [idle]
    exact ih others

theorem mapM {xs : List α} (each : ∀ a ∈ xs, ∀ t, Later s t → Tells p none t (f a) (g a)) :
    Tells p none s (xs.mapM f) (xs.mapM g) := by
  induction xs generalizing s with
  | nil => exact pure _
  | cons a xs ih =>
    rw [List.mapM_cons, List.mapM_cons]
    refine bind (each a List.mem_cons_self s (.refl s)) fun b t kept => ?_
    refine bind (ih fun c mem u later => each c (List.mem_cons_of_mem a mem) u (kept.trans later))
      fun bs _ _ => ?_
    exact pure _

theorem optionMapM {o : Option α} (each : ∀ a ∈ o, Tells p none s (f a) (g a)) :
    Tells p none s (o.mapM f) (o.mapM g) := by
  cases o with
  | none => exact pure _
  | some a => exact (each a rfl).bind fun _ _ _ => pure _

theorem optionForM {o : Option α} {f : α → Analysis PUnit} {g : α → Told PUnit}
    (each : ∀ a ∈ o, Tells p none s (f a) (g a)) :
    Tells p none s (o.forM f) (o.forM g) := by
  cases o with
  | none => exact pure _
  | some a => exact each a rfl

end Tells

def Hears (visit : Visit) (told : VisitIn Told) (s : Session) : Prop :=
  ∀ (t : Session) (node : NodeRef) (scope : ScopeId), Later s t →
    Tells False (some node) t (visit node scope) (told node scope)

section Parts

variable {visit : Visit} {told : VisitIn Told} {node : NodeRef} {body : Option NodeId} {file : Path}
    {params : Params NodeId}
  {key : CallKey} {locator target attr : NodeId} {args : List NodeId} {ids : List NodeId}
    {force : Bool} {star block : Option NodeId}
  {kind : NameKind} {id : String} {scope : ScopeId}

theorem Hears.after (hears : Hears visit told s) (later : Later s t) : Hears visit told t :=
  fun u node scope further => hears u node scope (later.trans further)

theorem Hears.part (hears : Hears visit told s) (part : s.Part node) :
    Tells p none s (visit node scope) (told node scope) := by
  obtain ⟨events, same, course, blind⟩ := hears s node scope (.refl s)
  exact ⟨events, same, .part part course, blind⟩

/-! ## Loading -/

def endFile {m : Type → Type} [Monad m] [MonadStateOf Session m] (depth : Nat) (file : Path)
    (ty : Ty) : m (Option Ty) := do
  if (← get).exhausted then
    modify fun s => { s.skipExhausted with exhausted := false, depth }
    return none
  else
    modify fun s => { s with loaded := s.loaded.insert file }
    return some ty

theorem endFile_run (depth : Nat) (file : Path) (ty : Ty) (s : Session) :
    (endFile depth file ty : Analysis _).run s =
      (if s.exhausted then none else some ty, s.fileEnded depth file) := by
  show (ite (s.exhausted = true) _ _ : Analysis _).run s = _
  unfold fileEnded
  split <;> rfl

theorem endFile_told (depth : Nat) (file : Path) (ty : Ty) (s : Session) :
    (endFile depth file ty : Told _) s =
      (if s.exhausted then none else some ty, s.fileEnded depth file,
        [.change s (s.fileEnded depth file)]) := by
  show (ite (s.exhausted = true) _ _ : Told _) s = _
  unfold fileEnded
  split <;> rfl

theorem inferFile_told {root : NodeRef} {ty : Ty} {u : Session} {events : List Event}
    (visited : told root Scopes.global (s.openFile file) = (ty, u, events)) :
    inferFile told file root s =
      (ty, u.closeFile s.cwd file,
        .change s (s.openFile file) :: (events ++ [.change u (u.closeFile s.cwd file)])) := by
  have closed := congrArg (fun r : Ty × Session × List Event =>
    (r.1, r.2.1.closeFile s.cwd file,
      Event.change s (s.openFile file) ::
        (r.2.2 ++ [Event.change r.2.1 (r.2.1.closeFile s.cwd file)]))) visited
  exact closed

theorem loadTree_told {tree : Nat} {ty : Ty} {u : Session} {events : List Event}
    (visited : told ((s.found file).rootOf tree) Scopes.global ((s.found file).openFile file) =
      (ty, u, events)) :
    loadTree told file tree (s.fetch file).2 =
      (if u.exhausted then none else some ty, (u.closeFile s.cwd file).fileEnded s.depth file,
      [.change (s.fetch file).2 (s.found file),
      .change (s.found file) ((s.found file).openFile file)] ++ events ++
        [.change u (u.closeFile s.cwd file),
          .change (u.closeFile s.cwd file) ((u.closeFile s.cwd file).fileEnded s.depth file)]) := by
  have rest := Told.run_bind (inferFile_told visited) (endFile_told s.depth file ty (u.closeFile s.cwd file))
  have whole := congrArg (fun r : Option Ty × Session × List Event =>
    (r.1, r.2.1, Event.change (s.fetch file).2 (s.found file) :: r.2.2)) rest
  rw [List.cons_append, List.append_assoc] at whole
  exact whole

def TellsOn (p : Prop) (s : Session) (file : Path) (x : Analysis α) (y : Told α) : Prop :=
  ∃ events, y (s.fetch file).2 = ((x.run (s.fetch file).2).1, (x.run (s.fetch file).2).2, events) ∧
    Course p none s (.change s (s.fetch file).2 :: events) (x.run (s.fetch file).2).2 ∧
    Blind (s.fetch file).2 x y False False

theorem TellsOn.tells {f : Option Nat → Analysis β} {g : Option Nat → Told β}
    (rest : TellsOn p s file (f (s.fetch file).1) (g (s.fetch file).1)) :
    Tells p none s (MonadState.modifyGet (·.fetch file) >>= f)
      (MonadState.modifyGet (·.fetch file) >>= g) := by
  obtain ⟨events, same, course, blind⟩ := rest
  refine ⟨_ :: events, congrArg (fun r : β × Session × List Event => (r.1, r.2.1, _ :: r.2.2)) same,
    course, ?_⟩
  exact .bind (.modifyGet fun _ _ => rfl) blind

theorem TellsOn.get {f : Session → Analysis β} {g : Session → Told β}
    (same : ∀ static pending,
      (f ((s.fetch file).2.within static pending), g ((s.fetch file).2.within static pending)) =
      (f (s.fetch file).2, g (s.fetch file).2)) (next :
      TellsOn p s file (f (s.fetch file).2) (g (s.fetch file).2)) :
    TellsOn p s file (MonadState.get >>= f) (MonadState.get >>= g) := by
  obtain ⟨events, told, course, blind⟩ := next
  exact ⟨events, told, course, blind.get fun static pending _ => same static pending⟩

theorem inferFile_blind {root : NodeRef}
    (blind : Blind (s.openFile file) (visit root Scopes.global) (told root Scopes.global) False False) :
    Blind s (inferFile visit file root) (inferFile told file root) False False := by
  have plain : inferFile visit file root = (do
      let before := (← MonadState.get).cwd
      modify (·.openFile file)
      let ty ← visit root Scopes.global
      modify (·.closeFile before file)
      return ty) := rfl
  have telling : inferFile told file root = (do
      let before := (← MonadState.get).cwd
      modify (·.openFile file)
      let ty ← told root Scopes.global
      modify (·.closeFile before file)
      return ty) := rfl
  rw [plain, telling]
  refine .get (.bind (.modifyGet fun _ _ => rfl) (.bind blind ?_)) fun _ _ _ => rfl
  exact .bind (.modifyGet fun _ _ => rfl) (.pure _)

theorem endFile_blind (depth : Nat) (file : Path) (ty : Ty) :
    Blind s (endFile depth file ty) (endFile depth file ty) False False := by
  refine .get ?_ fun _ _ _ => rfl
  split <;> exact .bind (.modifyGet fun _ _ => rfl) (.pure _)

variable (hears : Hears visit told s)
include hears

theorem loadTree_tells (fresh : s.importStack.contains file = false)
    (again : p ∨ s.loaded.contains file = false) {tree : Nat} (present : (s.fetch file).1 = some tree)
    (fits : ((s.fetch file).2.cache.trees[tree]?.getD default).size ≤ s.options.maxNodes) :
    TellsOn p s file (loadTree visit file tree) (loadTree told file tree) := by
  have later : Later s ((s.found file).openFile file) := ⟨rfl, rfl, (s.steady_fetch file).trees⟩
  have root := hears _ ((s.found file).rootOf tree) Scopes.global later
  obtain ⟨ty, u, events, visited, same, course⟩ := root.split
  have plain : (loadTree visit file tree).run (s.fetch file).2 =
      (if u.exhausted then none else some ty, (u.closeFile s.cwd file).fileEnded s.depth file) :=
    (run_bind (inferFile_run visited) _).trans (endFile_run s.depth file ty (u.closeFile s.cwd file))
  have blind : Blind (s.fetch file).2 (loadTree visit file tree) (loadTree told file tree) False False := by
    obtain ⟨-, -, -, inside⟩ := root
    refine .get (.bind (.modifyGet fun _ _ => rfl) ?_) fun _ _ _ => rfl
    refine .get (.bind (inferFile_blind inside) ?_) fun _ _ _ => rfl
    exact endFile_blind ..
  unfold TellsOn
  rw [plain]
  exact ⟨_, loadTree_told same, .load fresh again present fits course, blind⟩

theorem load_tells (path : Path) (force : Bool) (forced : force = true → p) :
    Tells p none s (load visit path force) (load told path force) := by
  unfold load
  refine .get (fun _ _ => rfl) (.get (fun _ _ => rfl) ?_)
  split
  · exact .pure _
  · rename_i fresh
    refine .get (fun _ _ => rfl) ?_
    split
    · exact .pure _
    · rename_i again
      refine TellsOn.tells ?_
      cases present : (s.fetch (s.files.settle path)).1 with
      | none =>
        refine ⟨_, rfl, .unread (Bool.eq_false_iff.mpr fresh) present, ?_⟩
        exact .bind (.modifyGet fun _ _ => rfl) (.pure _)
      | some tree =>
        refine TellsOn.get (fun _ _ => rfl) ?_
        split
        · rename_i large
          exact ⟨_, rfl, .oversized present large, Blind.bind (.modifyGet fun _ _ => rfl) (.pure _)⟩
        · rename_i fits
          refine loadTree_tells hears (Bool.eq_false_iff.mpr fresh) ?_ present (Nat.not_lt.mp fits)
          cases force with
          | true => exact .inl (forced rfl)
          | false => exact .inr (by simpa using again)

theorem require_tells (name : String)
    (forced : force = true → s.findRequired? (s.requiredPath name) ≠ none → p) :
    Tells p none s (require visit name force) (require told name force) := by
  unfold require
  refine .get (fun _ _ => rfl) ?_
  split
  · rename_i file meant
    exact (load_tells hears file force fun by_force => forced by_force (by simp [meant])).discard
  · exact .pure _

omit hears in
theorem require_absent {name : String} (absent : s.findRequired? (s.requiredPath name) = none) :
    ((require visit name force).run s).2 = s := by
  unfold require
  rw [run_get, absent]
  rfl

theorem autoload_tells (name : String) : Tells p none s (autoload visit name) (autoload told name) := by
  unfold autoload
  refine .get (fun _ _ => rfl) ?_
  split
  · exact .pure _
  · refine .update (.same rfl rfl) (fun _ _ => rfl) fun noted => .get (fun _ _ => rfl) ?_
    exact .bind (require_tells (hears.after noted) _ nofun) fun _ _ _ => .get (fun _ _ => rfl) (.pure _)

def settle {m : Type → Type} [MonadStateOf Session m] (node : NodeRef) (id : String)
    (kind : NameKind) (scope : ScopeId) : m (Ty × Bool) :=
  modifyGet fun s => s.settleReference node id (s.resolveName? scope id kind)

def referring {m : Type → Type} [Monad m] [MonadStateOf Session m] (visit : VisitIn m)
    (node : NodeRef) (id : String) (kind : NameKind) (scope : ScopeId) : m (Ty × Bool) := do
  let s ← get
  if (s.resolveName? scope id kind).isSome then settle node id kind scope
  else if s.options.autoloadConstants && kind = .plain && isConstant id && s.inProject node then
    if ← autoload visit id then settle node id kind scope else modifyGet (·.settleReference node id none)
  else modifyGet (·.settleReference node id none)

omit hears in
theorem reference_eq {m : Type → Type} [Monad m] [LawfulMonad m] [MonadStateOf Session m]
    (now : ∀ c : Session → Session → (Ty × Bool) × Session,
      ((get : m Session) >>= fun s => (modifyGet (c s) : m _)) = modifyGet fun s => c s s)
    (either : ∀ (p : Session → Bool) (c : Session → Session → (Ty × Bool) × Session)
      (k : Session → m (Ty × Bool)),
      ((get : m Session) >>= fun s => if p s then (modifyGet (c s) : m _) else k s) =
        get >>= fun s => if p s then (modifyGet fun s => c s s : m _) else k s)
    (visit : VisitIn m) (node : NodeRef) (id : String) (kind : NameKind) (scope : ScopeId) :
    reference visit node id kind scope = referring visit node id kind scope := by
  refine Eq.trans ?_ (either _ (fun s t => t.settleReference node id (s.resolveName? scope id kind)) _)
  unfold reference resolve
  rw [bind_assoc]
  refine bind_congr (m := m) fun s => ?_
  cases found : s.resolveName? scope id kind with
  | some ids => exact pure_bind ..
  | none =>
    dsimp only [Option.isSome_none]
    rw [if_neg Bool.false_ne_true]
    split
    · rw [bind_assoc]
      refine bind_congr fun loaded => ?_
      cases loaded with
      | false => exact pure_bind ..
      | true =>
        refine Eq.trans ?_ (now fun s t => t.settleReference node id (s.resolveName? scope id kind))
        simp
    · exact pure_bind ..

omit hears in
theorem settle_tells (written : s.kind node = .name id kind) :
    Tells p none s (settle node id kind scope) (settle node id kind scope) := by
  refine ⟨_, rfl, .quiet (quiet_settleReference node id _), _, [], rfl,
    .modifyGet fun static pending place => ?_, fun _ _ => rfl⟩
  have known : (s.within static pending).resolveName? scope id kind = s.resolveName? scope id kind := by
    by_cases here : static = s.staticContext
    · rw [here]
      exact s.resolveName?_pending ..
    · obtain ⟨-, apart⟩ := place.resolve_left here
      have unheeding := apart _ List.mem_cons_self fun same => here same.symm
      have turned : static = !s.staticContext := by
        cases static <;> cases flag : s.staticContext <;> simp_all
      rw [s.resolveName?_pending static pending scope id kind s.returns, turned]
      exact Decidable.byContradiction fun other => unheeding ⟨node, id, kind, scope, written, rfl, other⟩
  show (s.within static pending).settleReference node id
      ((s.within static pending).resolveName? scope id kind) = _
  rw [known, settleReference_within, pour_nil]

theorem reference_tells (written : s.kind node = .name id kind) :
    Tells p none s (reference visit node id kind scope) (reference told node id kind scope) := by
  have plain := reference_eq (m := Analysis) (fun _ => rfl) fun p c k => funext fun s => by
    have begun (f : Session → Analysis (Ty × Bool)) : (get >>= f) s = f s s := rfl
    rw [begun, begun]
    split <;> rfl
  have telling := reference_eq (m := Told) (fun _ => rfl) fun p c k => funext fun s => by
    have begun (f : Session → Told (Ty × Bool)) : (get >>= f) s = f s s := rfl
    rw [begun, begun]
    split <;> rfl
  rw [plain, telling]
  have untold {t : Session} :
      Tells p none t (modifyGet (·.settleReference node id none))
      (modifyGet (·.settleReference node id none)) :=
    Tells.modifyGet (quiet_settleReference node id none) fun static pending =>
      t.settleReference_within static pending node id none
  refine .get (fun _ _ => by simp only [isSome_resolveName?_within]; rfl) ?_
  split
  · exact settle_tells written
  · split
    · refine .bind (autoload_tells hears id) fun loaded t kept => ?_
      split
      · refine settle_tells ?_
        rwa [kind_retained kept.trees]
        simp [written]
      · exact untold
    · exact untold

/-! ## Targets and parameters -/

theorem visitOption_tells {child : Option NodeId} (parts : s.Parts node child) :
    Tells p none s (visitOption visit node child scope) (visitOption told node child scope) := by
  cases child with
  | none => exact .pure _
  | some id => exact hears.part (parts id rfl)

theorem bindTargetWithin_tells (kind : BindingKind) (bound : Nat) {target : NodeRef}
    (part : s.Part target) (ty : Ty) :
    Tells p none s (bindTargetWithin visit kind scope bound target ty)
      (bindTargetWithin told kind scope bound target ty) := by
  induction bound generalizing s target ty with
  | zero => exact .pure _
  | succ bound ih =>
    refine .get (fun _ _ => rfl) ?_
    split
    · exact .modify (quiet_bindName ..) fun _ _ => bindName_within ..
    · rename_i named
      exact .bind (hears.part (part_of_member named)) fun _ _ _ =>
        .modify (quiet_bindMember ..) fun _ _ => bindMember_within ..
    · rename_i named
      refine .forM fun id mem t later => .get (fun _ _ => rfl) ?_
      exact ih (hears.after later) ((parts_of_kind named id mem).after later) _
    · rename_i named
      exact ih hears (parts_cons.mp (parts_of_kind named)).1 _
    · exact (hears.part part).discard

theorem bindTarget_tells {target : NodeRef} (part : s.Part target) (ty : Ty) (kind : BindingKind) :
    Tells p none s (bindTarget visit target ty kind scope) (bindTarget told target ty kind scope) :=
  Tells.get (fun _ _ => rfl) (bindTargetWithin_tells hears kind _ part ty)

theorem bindParam_tells {param : NodeRef} (part : s.Part param) (ty : Ty) (frame : ScopeId) :
    Tells p none s (bindParam visit param ty frame) (bindParam told param ty frame) := by
  unfold bindParam
  refine .get (fun _ _ => rfl) ?_
  split
  · exact .modify (.same rfl rfl) fun _ _ => rfl
  · exact bindTarget_tells hears part ty .parameter

theorem bindPositional_tells (frame : ScopeId) {params : List (NodeId × Option NodeId)}
    (parts : ∀ e ∈ params, s.Part (node.sibling e.1) ∧ ∀ d ∈ e.2, s.Part (node.sibling d)) (supply : Supply) :
    Tells p none s (bindPositional visit node frame params supply)
      (bindPositional told node frame params supply) := by
  induction params generalizing s supply with
  | nil => exact .pure _
  | cons param params ih =>
    obtain ⟨id, default⟩ := param
    obtain ⟨⟨part, standard⟩, others⟩ := List.forall_mem_cons.mp parts
    unfold bindPositional
    refine .get (fun _ _ => rfl) ?_
    have goOn {t : Session} (ty : Ty) (later : Later s t) :
        Tells p none t
          (do bindParam visit (node.sibling id) ((supply.next (s.nameOf? (node.sibling id))).1.getD ty) frame
              bindPositional visit node frame params (supply.next (s.nameOf? (node.sibling id))).2)
          (do bindParam told (node.sibling id) ((supply.next (s.nameOf? (node.sibling id))).1.getD ty) frame
              bindPositional told node frame params (supply.next (s.nameOf? (node.sibling id))).2) := by
      refine .bind (bindParam_tells (hears.after later) (part.after later) _ frame) fun _ u kept => ?_
      have whole := later.trans kept
      exact ih (hears.after whole)
        (fun e mem => ⟨(others e mem).1.after whole, fun d at_ =>
        ((others e mem).2 d at_).after whole⟩) _
    cases default with
    | none => exact goOn .unknown (.refl s)
    | some d => exact .bind (hears.part (standard d rfl)) fun ty t kept => goOn ty kept

theorem bindEach_tells (frame : ScopeId) (parts : s.Parts node ids) (args : List Ty) :
    Tells p none s (bindEach visit node frame ids args) (bindEach told node frame ids args) := by
  induction ids generalizing s args with
  | nil => exact .pure _
  | cons id ids ih =>
    obtain ⟨part, others⟩ := parts_cons.mp parts
    refine .bind (bindParam_tells hears part _ frame) fun _ t kept => ?_
    exact ih (hears.after kept) (others.after kept) _

omit hears in
theorem mem_withDefaults {e : NodeId × Option NodeId} (mem : e ∈ withDefaults params) :
    e.1 ∈ params.positional ∧ ∀ d ∈ e.2, d ∈ params.defaults := by
  obtain ⟨⟨id, i⟩, listed, rfl⟩ := List.mem_map.mp mem
  refine ⟨List.fst_mem_of_mem_zipIdx listed, fun d chosen => ?_⟩
  dsimp only at chosen
  split at chosen
  · exact List.mem_of_getElem? chosen
  · cases chosen

theorem bindParams_tells (parts : s.Parts node params.children) (call : CallArgs) (frame : ScopeId) :
    Tells p none s (bindParams visit node params call frame) (bindParams told node params call frame) := by
  simp only [Params.children, parts_append, parts_toList] at parts
  obtain ⟨⟨⟨⟨⟨positional, defaults⟩, rest⟩, restKw⟩, afterRest⟩, blockArg⟩ := parts
  unfold bindParams
  have given : ∀ e ∈ withDefaults params, s.Part (node.sibling e.1) ∧ ∀ d ∈ e.2, s.Part (node.sibling d) :=
    fun e mem => ⟨positional _ (mem_withDefaults mem).1, fun d chosen =>
      defaults d ((mem_withDefaults mem).2 d chosen)⟩
  refine .bind (bindPositional_tells hears frame given _) fun supply t₁ later₁ => ?_
  refine .bind (bindEach_tells (hears.after later₁) frame (afterRest.after later₁) _) fun _ t₂ kept₂ => ?_
  have later₂ := later₁.trans kept₂
  refine .bind (.optionForM fun id mem =>
    bindParam_tells (hears.after later₂) ((rest id mem).after later₂) _ frame)
    fun _ t₃ kept₃ => ?_
  have later₃ := later₂.trans kept₃
  refine .bind (.optionForM fun id mem =>
    bindParam_tells (hears.after later₃) ((restKw id mem).after later₃) _ frame)
    fun _ t₄ kept₄ => ?_
  have later₄ := later₃.trans kept₄
  refine .bind (.optionForM fun id mem =>
    bindParam_tells (hears.after later₄) ((blockArg id mem).after later₄) _ frame)
    fun _ t₅ _ => ?_
  exact .optionForM fun block _ => .modify (.same rfl rfl) fun _ _ => rfl

/-! ## Applications -/

def runBody {m : Type → Type} [Monad m] [MonadStateOf Session m] (visit : VisitIn m) (key : CallKey)
    (node : NodeRef) (body : Option NodeId) (frame : ScopeId) : m Ty := do
  modify (·.pushCall key)
  let ty ← visitOption visit node body frame
  modifyGet (·.popCall key ty)

omit hears in
theorem runBody_blind {frame : ScopeId}
    (inside : Blind (s.pushCall key) (visitOption visit node body frame)
      (visitOption told node body frame) False False) :
    Blind s (runBody visit key node body frame) (runBody told key node body frame) False False := by
  obtain ⟨events, tys, telling, same, -⟩ := inside
  have returned := congrArg Session.returns same.own
  refine ⟨_, [], Told.run_modify (Told.run_bind telling rfl), fun static pending place => ?_, fun _ _ => rfl⟩
  have place : static = (s.pushCall key).staticContext ∨ ¬False ∧
      Apart events (visitOption told node body frame
        ((s.pushCall key).within static (.unknown :: pending))).2.2 := by
    refine place.imp_right fun ⟨unheeding, apart⟩ => ⟨unheeding, ?_⟩
    exact Apart.left (List.forall_mem_cons.mp apart).2
  obtain ⟨ran, others, there, long⟩ := same static (.unknown :: pending) place
  have popped := popCall_within returned key
    ((visitOption visit node body frame).run (s.pushCall key)).1 static pending
  rw [pour_nil]
  refine ⟨?_, _, Told.run_modify (Told.run_bind there (Told.modifyGet_eq popped)), by simp [long]⟩
  exact (congrArg (fun r : Ty × Session => r.2.popCall key r.1) ran).trans popped

theorem runBody_tells (there : key.function < s.functions.size) (fresh : s.callStack.contains key = false)
    (bounded : (s.function key.function).active < s.options.maxRecursion)
    (parts : s.Parts node body) (frame : ScopeId) :
    Tells p none s (runBody visit key node body frame) (runBody told key node body frame) := by
  have later : Later s (s.pushCall key) := ⟨rfl, rfl, List.prefix_rfl⟩
  obtain ⟨events, same, course, blind⟩ := visitOption_tells (hears.after later) (parts.after later)
  refine ⟨_, ?_, .call _ there fresh bounded course, runBody_blind blind⟩
  have popped := Told.run_bind same (f := fun ty => modifyGet (·.popCall key ty)) rfl
  exact congrArg (fun r : Ty × Session × List Event =>
    (r.1, r.2.1, Event.change s (s.pushCall key) :: r.2.2)) popped

def bindCall {m : Type → Type} [Monad m] [MonadStateOf Session m] (visit : VisitIn m)
    (f : FunctionRecord) (id : FunctionId)
    (locator : Option NodeId) (params : Params NodeId) (receiver : Ty) (call : CallArgs) : m ScopeId := do
  let frame ← modifyGet (·.enterFrame id)
  if !f.isLambda then
    modify fun s => (s.bind frame .object selfName (s.selfNode f.node locator)
      (s.span f.node) .scope receiver).2
  bindParams visit f.node params call frame
  return frame

omit hears in
theorem enter_eq {m : Type → Type} [Monad m] [LawfulMonad m] [MonadStateOf Session m]
    (visit : VisitIn m) (key : CallKey) (receiver : Ty) (call : CallArgs) :
    enter visit key receiver call = (do
      let f := (← get).function key.function
      match (← get).kind f.node with
      | .function locator params body _ _ => do
        let frame ← bindCall visit f key.function locator params receiver call
        runBody visit key f.node body frame
      | _ => return .unknown) := by
  unfold enter bindCall runBody
  refine bind_congr fun s => bind_congr fun t => ?_
  cases t.kind (s.function key.function).node with
  | function locator params body =>
    dsimp only
    rw [bind_assoc]
    refine bind_congr fun frame => ?_
    split <;> simp only [bind_assoc, pure_bind]
  | _ => rfl

theorem bindCall_tells {f : FunctionRecord} (id : FunctionId) (locator : Option NodeId)
    (parts : s.Parts f.node params.children) (receiver : Ty) (call : CallArgs) :
    Tells p none s (bindCall visit f id locator params receiver call)
      (bindCall told f id locator params receiver call) := by
  unfold bindCall
  refine .updateGet (quiet_enterFrame id) (fun _ _ => enterFrame_within ..) fun framed => ?_
  have goOn {t : Session} (bound : Later (s.enterFrame id).2 t) :
      Tells p none t
        (do bindParams visit f.node params call (s.enterFrame id).1
            return (s.enterFrame id).1)
        (do bindParams told f.node params call (s.enterFrame id).1
            return (s.enterFrame id).1) := by
    have later := framed.trans bound
    exact (bindParams_tells (hears.after later) (parts.after later) call _).result
  split
  · exact .update (.same rfl rfl) (fun _ _ => rfl) goOn
  · exact goOn (.refl _)

omit hears in
theorem refuses_steady (granted : s.refuses key = false) (steady : Steady s t) :
    key.function < t.functions.size ∧ t.callStack.contains key = false ∧
      (t.function key.function).active < t.options.maxRecursion := by
  obtain ⟨there, fresh, bounded⟩ := refuses_eq_false granted
  rw [steady.callStack, steady.active, steady.options]
  exact ⟨Nat.lt_of_lt_of_le there steady.functions, fresh, bounded⟩

theorem enter_tells (granted : s.refuses key = false) (receiver : Ty) (call : CallArgs) :
    Tells p none s (enter visit key receiver call) (enter told key receiver call) := by
  rw [enter_eq, enter_eq]
  refine .get (fun _ _ => rfl) (.get (fun _ _ => rfl) ?_)
  split
  · rename_i written
    obtain ⟨-, given, inner⟩ := parts_function.mp (parts_of_kind written)
    refine .bindSteady (bindCall_tells hears _ _ given receiver call) fun frame t bound => ?_
    obtain ⟨there, fresh, bounded⟩ := refuses_steady granted bound
    exact runBody_tells (hears.after bound.later) there fresh bounded (inner.after bound.later) frame
  · exact .pure _

theorem apply_tells (id : FunctionId) (receiver : Ty) (call : CallArgs) :
    Tells p none s (apply visit id receiver call) (apply told id receiver call) := by
  unfold apply
  refine .update (quiet_markCalled id) (fun _ _ => rfl) fun marked => .get (fun _ _ => rfl) ?_
  split
  · exact .pure _
  · rename_i granted
    exact enter_tells (hears.after marked) (Bool.eq_false_iff.mpr granted) receiver call

theorem applyAll_tells (callee receiver : Ty) (call : CallArgs) :
    Tells p none s (applyAll visit callee receiver call) (applyAll told callee receiver call) := by
  unfold applyAll
  refine .result (.mapM fun id _ t later => ?_)
  exact apply_tells (hears.after later) id receiver call

theorem applyBlock_tells (args : List Ty) :
    Tells p none s (applyBlock visit scope args) (applyBlock told scope args) := by
  unfold applyBlock
  refine .get (fun _ _ => rfl) ?_
  split
  · exact applyAll_tells hears _ _ _
  · exact .pure _

theorem construct_tells (call : CallArgs) (classes : List ClassId) :
    Tells p none s (construct visit call classes) (construct told call classes) := by
  induction classes generalizing s with
  | nil => exact .pure _
  | cons c classes ih =>
    unfold construct
    refine .get (fun _ _ => by rw [lookupMember?_within]; rfl) ?_
    have goOn {t : Session} (later : Later s t) :
        Tells p none t (do return .inst c :: (← construct visit call classes))
          (do return .inst c :: (← construct told call classes)) :=
      (ih (hears.after later)).result
    split
    · exact .bind (applyAll_tells hears _ _ call).discard fun _ _ kept => goOn kept
    · exact goOn (.refl s)

theorem callMember_tells (receiver : Ty) (name : String) (attr : NodeRef) (call : CallArgs) :
    Tells p none s (callMember visit receiver name attr call) (callMember told receiver name attr call) := by
  unfold callMember
  split
  · exact (construct_tells hears call _).result
  · split
    · exact applyAll_tells hears _ _ call
    · refine .get (fun _ _ => by rw [lookupMember?_within]) ?_
      split
      · exact .pure _
      · rename_i ids found
        refine .update (.same rfl rfl) (fun _ _ => rfl) fun referred => .get (fun _ _ => rfl) ?_
        split
        · exact applyAll_tells (hears.after referred) _ _ call
        · exact .pure _

/-! ## Definitions -/

omit hears in
theorem withStatic_blind {on : Bool} {scope : ScopeId}
    (inside : Blind { s with staticContext := on } (visitOption visit node body scope)
      (visitOption told node body scope) False False) :
    Blind s (withStatic visit on node body scope) (withStatic told on node body scope) False False := by
  obtain ⟨events, tys, telling, same, silent⟩ := inside
  refine ⟨_, tys, Told.run_get (Told.run_modify (Told.run_bind telling (Told.run_modify rfl))),
    fun static pending _ => ?_,
    fun unreturning quiet => silent unreturning ?_⟩
  · obtain ⟨ran, others, there, long⟩ := same on pending (.inl rfl)
    refine ⟨?_, _, Told.run_get (Told.run_modify (Told.run_bind there (Told.run_modify rfl))), by simp [long]⟩
    exact congrArg (fun r : Ty × Session => (r.1, { r.2 with staticContext := static })) ran
  · exact fun node scope m mem => quiet node scope m (List.mem_cons_of_mem _ (List.mem_append_left _ mem))

theorem withStatic_tells (on : Bool) (parts : s.Parts node body) :
    Tells p none s (withStatic visit on node body scope) (withStatic told on node body scope) := by
  have later : Later s { s with staticContext := on } := ⟨rfl, rfl, List.prefix_rfl⟩
  obtain ⟨events, telling, course, blind⟩ := visitOption_tells (hears.after later) (parts.after later)
  refine ⟨_, Told.run_get (Told.run_modify (Told.run_bind telling (Told.run_modify rfl))), ?_,
    withStatic_blind blind⟩
  have turned : Quiet s { s with staticContext := on } := .same rfl rfl
  have back (u : Session) : Quiet u { u with staticContext := s.staticContext } := .same rfl rfl
  exact (Course.quiet turned).append (course.append (.quiet (back _)))

omit hears in
theorem part_of_locator (located : s.kind (node.sibling locator) = .member target attr) :
    s.Part (node.sibling target) :=
  show s.Part ((node.sibling locator).sibling target) from part_of_member located

theorem definitionScope_tells (node : NodeRef) (locator : NodeId) :
    Tells p none s (definitionScope visit node locator scope) (definitionScope told node locator scope) := by
  unfold definitionScope
  refine .get (fun _ _ => rfl) ?_
  split
  · rename_i located
    exact .bind (hears.part (part_of_locator located)) fun _ _ _ => .get (fun _ _ => rfl) (.pure _)
  · exact .pure _

theorem definedBody_tells (node nameNode : NodeRef) (name : String) (kind : BindingKind)
    (parts : s.Parts node body) (outer inner : ScopeId) (ty : Ty) :
    Tells p none s
      (do modify (·.bindDefinition outer inner name node nameNode kind ty)
          discard (withStatic visit false node body inner)
          return ty)
      (do modify (·.bindDefinition outer inner name node nameNode kind ty)
          discard (withStatic told false node body inner)
          return ty) := by
  refine .update (.same rfl rfl) (fun _ _ => rfl) fun bound => ?_
  refine .bind (withStatic_tells (hears.after bound) false (parts.after bound)).discard ?_
  exact fun _ _ _ => .pure _

theorem defineModule_tells (locator : NodeId) (parts : s.Parts node body) :
    Tells p none s (defineModule visit node locator body scope)
      (defineModule told node locator body scope) := by
  unfold defineModule
  refine .get (fun _ _ => rfl) ?_
  split
  · exact (visitOption_tells hears parts).discard.result
  · refine .get (fun _ _ => rfl) ?_
    split
    · exact .pure _
    · split
      · exact (withStatic_tells hears true parts).discard.result
      · refine .bind (definitionScope_tells hears node locator) fun outer t kept => ?_
        refine .updateGet (quiet_moduleFor ..) (fun _ _ => moduleFor_within ..) fun made =>
          .get (fun _ _ => rfl) ?_
        have later := kept.trans made
        exact definedBody_tells (hears.after later) node _ _ _ (parts.after later) _ _ _

theorem baseClass_tells {base : Option NodeId} (parts : s.Parts node base) :
    Tells p none s (baseClass visit node base scope) (baseClass told node base scope) := by
  cases base with
  | none => exact .pure _
  | some id => exact (hears.part (parts id rfl)).result

theorem defineClass_tells (locator : NodeId) {base body : Option NodeId} (based : s.Parts node base)
    (parts : s.Parts node body) :
    Tells p none s (defineClass visit node locator base body scope)
      (defineClass told node locator base body scope) := by
  unfold defineClass
  refine .bind (baseClass_tells hears based) fun base t kept => .get (fun _ _ => rfl) ?_
  replace hears := hears.after kept
  replace parts := parts.after kept
  split
  · exact (visitOption_tells hears parts).discard.result
  · refine .get (fun _ _ => rfl) ?_
    split
    · exact .pure _
    · refine .bind (definitionScope_tells hears node locator) fun outer u kept => ?_
      refine .updateGet (quiet_classFor ..) (fun _ _ => classFor_within ..) fun made => ?_
      refine .update (quiet_setBase ..) (fun _ _ => setBase_within ..) fun extended =>
        .get (fun _ _ => rfl) ?_
      have later := kept.trans (made.trans extended)
      exact definedBody_tells (hears.after later) node _ _ _ (parts.after later) _ _ _

theorem methodScope_tells (node : NodeRef) (locator : NodeId) :
    Tells p none s (methodScope visit node locator scope) (methodScope told node locator scope) := by
  unfold methodScope
  refine .get (fun _ _ => rfl) ?_
  split
  · rename_i located
    refine .get (fun _ _ => rfl) ?_
    split
    · exact .pure _
    · exact .bind (hears.part (part_of_locator located)) fun _ _ _ => .get (fun _ _ => rfl) (.pure _)
  · exact .pure _

omit hears in
theorem methodScope_receiver (scope : ScopeId)
    (located : s.kind (node.sibling locator) = .member target attr) :
    ((methodScope visit node locator scope).run s).1.2 = true := by
  have begun (f : Session → Analysis (ScopeId × Bool)) : (get >>= f).run s = (f s).run s := rfl
  unfold methodScope
  rw [begun, located]
  dsimp only
  rw [begun]
  split <;> rfl

theorem defineFunction_tells (node : NodeRef) (locator : Option NodeId) (isLambda : Bool) {heeding : Prop}
    (receiver : ¬heeding → ∀ id ∈ locator, ∃ target attr, s.kind (node.sibling id) = .member target attr) :
    Tells p none s (defineFunction visit node locator isLambda scope)
      (defineFunction told node locator isLambda scope) False heeding := by
  unfold defineFunction
  split
  · refine .updateGet (quiet_functionFor ..) (fun _ _ => functionFor_within ..) fun _ => ?_
    exact .update (quiet_addUncalled _) (fun _ _ => addUncalled_within ..) fun _ => .pure _
  · rename_i id
    have located (static : Bool) (pending : List Ty) :
        (s.within static pending).nameNode? node id = s.nameNode? node id := rfl
    refine .get (fun _ _ => by rw [located]) ?_
    split
    · exact .pure _
    · rename_i nameNode _
      have called (static : Bool) (pending : List Ty) :
          (s.within static pending).nameOf? nameNode = s.nameOf? nameNode := rfl
      refine .get (fun _ _ => by rw [called]) ?_
      split
      · exact .pure _
      · refine .bindHere (methodScope_tells hears node _) (.getHeeding ?_ ?_)
        · rintro static pending (here | unheeding)
          · rw [here]
            rfl
          · obtain ⟨target, attr, located⟩ := receiver unheeding id rfl
            simp only [methodScope_receiver scope located, Bool.true_or]
            rfl
        · generalize (methodScope visit node id scope).run s = placed
          refine .updateGet (quiet_functionFor ..) (fun _ _ => functionFor_within ..) fun _ => ?_
          refine .update (.same rfl rfl) (fun _ _ => rfl) fun _ => ?_
          exact .update (quiet_addUncalled _) (fun _ _ => addUncalled_within ..) fun _ => .pure _

/-! ## Calls -/

theorem visitAll_tells (parts : s.Parts node ids) :
    Tells p none s (visitAll visit node ids scope) (visitAll told node ids scope) :=
  Tells.mapM fun id mem _ later => (hears.after later).part ((parts id mem).after later)

theorem requireAll_tells (parts : s.Parts node args)
    (forced : force = true → s.filesFor visit node args scope ≠ [] → p) :
    Tells p none s (requireAll visit node args force scope) (requireAll told node args force scope) := by
  have given : Tells p none s (visitAll visit node args scope) (visitAll told node args scope) :=
    visitAll_tells hears parts
  have kept := given.later
  unfold requireAll
  refine .bindHere given (.result ?_)
  by_cases found : s.filesFor visit node args scope = []
  · -- No name stands for a file, so that nothing is required and the session stays as it is.
    refine .forMIdle fun name mem => ?_
    have absent := List.filterMap_eq_nil_iff.mp found name mem
    exact ⟨require_absent absent, require_tells (hears.after kept) name fun _ meant => absurd absent meant⟩
  · refine .forM fun name _ u later => ?_
    exact require_tells (hears.after (kept.trans later)) name fun by_force _ => forced by_force found

omit hears in
theorem declareAccessors_tells (node : NodeRef) (args : List NodeId) :
    Tells p none s (declareAccessors node args scope) (declareAccessors node args scope) := by
  unfold declareAccessors
  refine .get (fun _ _ => rfl) ?_
  split
  · exact .pure _
  · refine .get (fun _ _ => rfl) (.result (.forM fun id _ t _ => ?_))
    exact .modify (quiet_declareAttribute ..) fun _ _ => declareAttribute_within ..

theorem mixIn_tells (parts : s.Parts node args) :
    Tells p none s (mixIn visit node args scope) (mixIn told node args scope) := by
  unfold mixIn
  refine .bind (visitAll_tells hears parts) fun included t _ => .get (fun _ _ => rfl) ?_
  split
  · exact .pure _
  · refine .result (.forM fun m _ u _ => ?_)
    exact .modify (quiet_addMixin ..) fun _ _ => addMixin_within ..

omit hears in
theorem SpecialForm.eq_load {name : String} (form : ofName? name = some (.require true)) : name = "load" := by
  unfold ofName? at form
  split at form <;> simp_all

theorem specialForm_tells {name : String} (parts : s.Parts node args) {block : Option NodeId}
    (given : s.Parts node block)
    (forced : name = "load" → s.lookupName? scope name = none → s.filesFor visit node args scope ≠ [] → p) :
    Tells p none s (specialForm visit node name args block scope)
      (specialForm told node name args block scope) := by
  unfold specialForm
  refine .get (fun _ _ => by simp only [isSome_lookupName?_within]) ?_
  split
  · exact .pure _
  · rename_i undefined
    split
    · exact .pure _
    · rename_i force form
      refine (requireAll_tells hears parts fun by_force found => ?_).result
      exact forced (SpecialForm.eq_load (by_force ▸ form)) (Option.not_isSome_iff_eq_none.mp undefined) found
    · exact (declareAccessors_tells node args).result
    · exact (mixIn_tells hears parts).result
    · exact .optionMapM fun id mem => hears.part (given id mem)

theorem visitKeywords_tells (parts : s.Parts node ids) :
    Tells p none s (visitKeywords visit node ids scope) (visitKeywords told node ids scope) := by
  refine .mapM fun id mem t later => .get (fun _ _ => rfl) ?_
  exact ((hears.after later).part ((parts id mem).after later)).result

theorem callArgs_tells {func : NodeId} {args keywords : List NodeId}
    (parts : s.Parts node (Kind.call func args keywords star block).parts) :
    Tells p none s (callArgs visit node args keywords star block scope)
      (callArgs told node args keywords star block scope) := by
  obtain ⟨-, positional, named, splat, given⟩ := parts_call.mp parts
  unfold callArgs
  refine .bind (visitAll_tells hears positional) fun _ t₁ later₁ => ?_
  refine .bind (visitKeywords_tells (hears.after later₁) (named.after later₁)) fun _ t₂ kept₂ => ?_
  have later₂ := later₁.trans kept₂
  refine .bind (.optionMapM fun id mem => (hears.after later₂).part ((splat id mem).after later₂))
    fun _ t₃ kept₃ => ?_
  have later₃ := later₂.trans kept₃
  refine .bind (.optionMapM fun id mem => (hears.after later₃).part ((given id mem).after later₃))
    fun _ _ _ => ?_
  exact .pure _

theorem callTarget_tells {func : NodeRef} (part : s.Part func) (call : CallArgs) :
    Tells p none s (callTarget visit func call scope) (callTarget told func call scope) := by
  unfold callTarget
  refine .get (fun _ _ => rfl) ?_
  split
  · rename_i target attr called
    refine .bind (hears.part (part_of_member called)) fun this t kept => .get (fun _ _ => rfl) ?_
    split
    · exact .pure _
    · exact callMember_tells (hears.after kept) ..
  · rename_i named
    refine .bind (reference_tells hears named) fun callee t kept => .get (fun _ _ => rfl) ?_
    exact applyAll_tells (hears.after kept) ..
  · refine .bind (hears.part part) fun callee t kept => .get (fun _ _ => rfl) ?_
    exact applyAll_tells (hears.after kept) ..

omit hears in
theorem loadArgs?_call {func : NodeId} {args keywords : List NodeId}
    (written : s.kind node = .call func args keywords star block)
    (called : s.kind (node.sibling func) = .name "load" .plain)
    (undefined : s.lookupName? scope "load" = none) :
    s.loadArgs? node scope = some args := by
  unfold loadArgs?
  rw [written]
  exact if_pos ⟨called, undefined⟩

theorem callNode_tells {func : NodeId}
    {args keywords : List NodeId} (written : s.kind node = .call func args keywords star block) :
    Tells (ForcesBy visit s node scope) none s (callNode visit node func args keywords star block scope)
      (callNode told node func args keywords star block scope) := by
  have parts := parts_of_kind written
  obtain ⟨head, positional, -, -, given⟩ := parts_call.mp parts
  have ordinary {t : Session} (later : Later s t) :
      Tells (ForcesBy visit s node scope) none t
        (do let call ← callArgs visit node args keywords star block scope
            callTarget visit (node.sibling func) call scope)
        (do let call ← callArgs told node args keywords star block scope
            callTarget told (node.sibling func) call scope) := by
    refine .bind (callArgs_tells (hears.after later) (parts.after later)) fun call u kept => ?_
    have whole := later.trans kept
    exact callTarget_tells (hears.after whole) (head.after whole) call
  unfold callNode
  refine .get (fun _ _ => rfl) ?_
  dsimp only
  split
  · rename_i id called
    have special := specialForm_tells (p := ForcesBy visit s node scope) hears positional given
      fun load undefined found => ⟨args, loadArgs?_call written (load ▸ called) (load ▸ undefined), found⟩
    refine .bind special fun special t kept => ?_
    cases special with
    | some ty => exact .pure _
    | none => exact ordinary kept
  · exact ordinary (.refl s)

/-! ## Nodes -/

theorem inferBlock_tells {stmts : List NodeId} (parts : s.Parts node stmts) (last : Ty) :
    Tells p none s (inferBlock visit node scope stmts last) (inferBlock told node scope stmts last) := by
  induction stmts generalizing s last with
  | nil => exact .pure _
  | cons id stmts ih =>
    obtain ⟨part, others⟩ := parts_cons.mp parts
    refine .bind (hears.part part) fun ty t kept => ?_
    exact ih (hears.after kept) (others.after kept) ty

theorem inferName_tells (written : s.kind node = .name id kind) :
    Tells p none s (inferName visit node id kind scope) (inferName told node id kind scope) := by
  unfold inferName
  refine .bind (reference_tells hears written) fun result t kept => ?_
  obtain ⟨ty, callable⟩ := result
  dsimp only
  split
  · exact .get (fun _ _ => rfl) (applyAll_tells (hears.after kept) ..)
  · exact .pure _

theorem inferMember_tells {target : NodeId} (part : s.Part (node.sibling target)) (attr : NodeId) :
    Tells p none s (inferMember visit node target attr scope) (inferMember told node target attr scope) := by
  unfold inferMember
  refine .bind (hears.part part) fun receiver t kept => .get (fun _ _ => rfl) ?_
  split
  · exact .pure _
  · exact callMember_tells (hears.after kept) ..

theorem inferElement_tells {id : NodeId} (part : s.Part (node.sibling id)) :
    Tells p none s (inferElement visit node scope id) (inferElement told node scope id) := by
  unfold inferElement
  refine .bind (hears.part part) fun ty t _ => .get (fun _ _ => rfl) ?_
  split <;> exact .pure _

theorem visitKnown_tells {child : Option NodeId} (parts : s.Parts node child) :
    Tells p none s (visitKnown visit node child scope) (visitKnown told node child scope) := by
  cases child with
  | none => exact .pure _
  | some id => exact hears.part (parts id rfl)

theorem inferGuarded_tells {body rescue orelse ensure : Option NodeId}
    (parts : s.Parts node (Kind.guarded body rescue orelse ensure).parts) :
    Tells p none s (inferGuarded visit node body rescue orelse ensure scope)
      (inferGuarded told node body rescue orelse ensure scope) := by
  simp only [Kind.parts, Kind.children, parts_append, parts_toList] at parts
  obtain ⟨⟨⟨main, rescued⟩, other⟩, last⟩ := parts
  unfold inferGuarded
  refine .bind (visitOption_tells hears main) fun _ t₁ later₁ => ?_
  refine .bind (visitKnown_tells (hears.after later₁) (rescued.after later₁)) fun _ t₂ kept₂ => ?_
  have later₂ := later₁.trans kept₂
  refine .bind (visitKnown_tells (hears.after later₂) (other.after later₂)) fun _ t₃ kept₃ => ?_
  have later₃ := later₂.trans kept₃
  exact (visitOption_tells (hears.after later₃) (last.after later₃)).discard.result

theorem inferHandler_tells {exceptions : List NodeId} {binder body orelse : Option NodeId}
    (parts : s.Parts node (Kind.handler exceptions binder body orelse).parts) :
    Tells p none s (inferHandler visit node exceptions binder body orelse scope)
      (inferHandler told node exceptions binder body orelse scope) := by
  simp only [Kind.parts, Kind.children, parts_append, parts_toList] at parts
  obtain ⟨⟨⟨classes, bound⟩, main⟩, other⟩ := parts
  unfold inferHandler
  refine .bind (visitAll_tells hears classes) fun _ t₁ later₁ => ?_
  refine .bind (.optionForM fun id mem =>
    bindTarget_tells (hears.after later₁) ((bound id mem).after later₁) ..)
    fun _ t₂ kept₂ => ?_
  have later₂ := later₁.trans kept₂
  refine .bind (visitOption_tells (hears.after later₂) (main.after later₂)) fun _ t₃ kept₃ => ?_
  have later₃ := later₂.trans kept₃
  exact (visitKnown_tells (hears.after later₃) (other.after later₃)).result

theorem yieldArgs_tells {value : Option NodeId} (parts : s.Parts node value) :
    Tells p none s (yieldArgs visit node value scope) (yieldArgs told node value scope) := by
  unfold yieldArgs
  split
  · exact .pure _
  · rename_i id
    refine .get (fun _ _ => rfl) ?_
    split
    · rename_i elts listed
      refine visitAll_tells hears (fun elt mem => ⟨id, ?_⟩)
      show elt ∈ (s.kind (node.sibling id)).parts
      rw [listed]
      exact mem
    · exact (hears.part (parts id rfl)).result

omit hears in
theorem addReturn_tells (ty : Ty) :
    Tells p none s (do modify (·.addReturn ty); return ty) (do modify (·.addReturn ty); return ty)
      True heeding := by
  have added : SameFrom s (modify (·.addReturn ty)) (modify (·.addReturn ty))
      [.change s (s.addReturn ty)] [ty] heeding :=
    .modifyGet fun static pending _ => congrArg (PUnit.unit, ·) (s.addReturn_within ty static pending)
  exact ⟨_, rfl, .quiet (quiet_addReturn ty), _, _, rfl, added.bind (.pure ty), fun unreturning =>
    absurd trivial unreturning⟩

theorem inferNode_tells (node : NodeRef) (scope : ScopeId) :
    Tells (ForcesBy visit s node scope) none s (inferNode visit node scope)
      (inferNode told node scope) (s.kind node).Returns (s.DefinesPlainly node (s.kind node)) := by
  unfold inferNode
  refine .get (fun _ _ => rfl) ?_
  generalize meaning : s.kind node = kind
  have parts := parts_of_kind meaning
  cases kind with
  | block stmts => exact inferBlock_tells hears parts _
  | moduleDef locator body _ => exact defineModule_tells hears locator parts.sub
  | classDef locator base body isStatic _ =>
    dsimp only
    split
    · exact (withStatic_tells hears true parts.sub).discard.result
    · exact defineClass_tells hears locator parts.sub parts.sub
  | function locator _ _ isLambda _ =>
    refine defineFunction_tells hears node locator isLambda fun unheeding id mem => ?_
    cases mem
    simpa [DefinesPlainly] using unheeding
  | call func args keywords star block => exact callNode_tells hears meaning
  | member target attr => exact inferMember_tells hears parts.one attr
  | binary op left right =>
    refine .bind (hears.part parts.one) fun l t kept => ?_
    exact .bind ((hears.after kept).part (parts.after kept).one) fun r _ _ => .pure _
  | unary op operand => exact (hears.part parts.one).result
  | assign target value =>
    refine .bind (hears.part parts.one) fun ty t kept => ?_
    exact (bindTarget_tells (hears.after kept) (parts.after kept).one ..).result
  | name id kind => exact inferName_tells hears meaning
  | symbol id => exact .pure _
  | str value => exact .pure _
  | strEmbed value => exact (visitOption_tells hears parts.sub).discard.result
  | regexp pattern stop =>
    refine .bind (visitOption_tells hears parts.sub).discard fun _ t kept => ?_
    exact (visitOption_tells (hears.after kept) (parts.after kept).sub).discard.result
  | int _ => exact .pure _
  | float _ => exact .pure _
  | array elts =>
    refine .result (.mapM fun id mem t later => ?_)
    exact inferElement_tells (hears.after later) ((parts id mem).after later)
  | dict keys values =>
    refine .bind (visitAll_tells hears parts.sub) fun _ t kept => ?_
    exact (visitAll_tells (hears.after kept) (parts.after kept).sub).result
  | starred value => exact hears.part parts.one
  | keyword _ value => exact visitOption_tells hears parts.sub
  | branch test body orelse =>
    refine .bind (hears.part parts.one).discard fun _ t₁ later₁ => ?_
    refine .bind (visitOption_tells (hears.after later₁) (parts.after later₁).sub) fun _ t₂ kept₂ => ?_
    have later₂ := later₁.trans kept₂
    exact (visitOption_tells (hears.after later₂) (parts.after later₂).sub).result
  | loop test body =>
    refine .bind (hears.part parts.one).discard fun _ t kept => ?_
    exact (visitOption_tells (hears.after kept) (parts.after kept).sub).discard.result
  | each target iter body =>
    refine .bind (hears.part parts.one) fun ty t₁ later₁ => ?_
    refine .bind (bindTarget_tells (hears.after later₁) (parts.one.after later₁) ..) fun _ t₂ kept₂ => ?_
    have later₂ := later₁.trans kept₂
    exact (visitOption_tells (hears.after later₂) (parts.after later₂).sub).discard.result
  | guarded body rescue orelse ensure => exact inferGuarded_tells hears parts
  | handler exceptions binder body orelse => exact inferHandler_tells hears parts
  | ret value =>
    refine .bind (visitOption_tells hears parts.sub) fun ty t _ => ?_
    exact addReturn_tells ty
  | yield value =>
    refine .bind (yieldArgs_tells hears parts.sub) fun args t kept => ?_
    exact applyBlock_tells (hears.after kept) args
  | subscript value slot =>
    refine .bind (hears.part parts.one) fun ty t kept => ?_
    exact .bind (visitOption_tells (hears.after kept) (parts.after kept).sub).discard
      fun _ _ _ => .get (fun _ _ => rfl) (.pure _)
  | index value => exact hears.part parts.one
  | slice lower upper =>
    refine .bind (visitOption_tells hears parts.sub).discard fun _ t kept => ?_
    exact (visitOption_tells (hears.after kept) (parts.after kept).sub).discard.result
  | control _ => exact .pure _
  | undef _ => exact .pure _
  | void => exact .pure _

end Parts

/-! ## The recursion -/

theorem tell_succ (levels : Nat) (node : NodeRef) (scope : ScopeId) (s : Session) :
    tell (levels + 1) node scope s =
      if s.exhausted then (.unknown, s, [.visit node scope s])
      else
        let r := inferNode (tell levels) node scope { s with depth := s.depth + 1 }
        (r.1, { r.2.1 with depth := r.2.1.depth - 1 },
          [.visit node scope s, .change s { s with depth := s.depth + 1 }] ++ r.2.2 ++
            [.change r.2.1 { r.2.1 with depth := r.2.1.depth - 1 }]) := by
  have unfolded : tell (levels + 1) node scope s =
      (fun r : Ty × Session × List Event => (r.1, r.2.1, .visit node scope s :: r.2.2))
      ((ite (s.exhausted = true) (pure .unknown) (do
        modify fun s => { s with depth := s.depth + 1 }
        let ty ← inferNode (tell levels) node scope
        modify fun s => { s with depth := s.depth - 1 }
        return ty) : Told Ty) s) := rfl
  rw [unfolded]
  split <;> rfl

theorem tell_blind {levels : Nat} {node : NodeRef} {scope : ScopeId}
    (inside : Blind { s with depth := s.depth + 1 } (inferNode (infer levels) node scope)
      (inferNode (tell levels) node scope)
      (s.kind node).Returns (s.DefinesPlainly node (s.kind node))) :
    Blind s (infer (levels + 1) node scope) (tell (levels + 1) node scope) False False := by
  refine .visiting (.get ?_ fun _ _ _ => rfl) id id
  split
  · exact .pure _
  · refine .bind (.modifyGet fun _ _ => rfl) (.bind inside ?_)
    exact .bind (.modifyGet fun _ _ => rfl) (.pure _)

theorem tell_hears (levels : Nat) (left : levels = s.options.maxDepth - s.depth) :
    Hears (infer levels) (tell levels) s := by
  induction levels generalizing s with
  | zero =>
    intro t node scope later
    have spent : t.options.maxDepth ≤ t.depth := by
      rw [later.options, later.depth]
      omega
    refine ⟨_, rfl, .refused node scope spent, Blind.visiting ?_ False.elim False.elim⟩
    exact .bind (.modifyGet fun _ _ => rfl) (.pure _)
  | succ levels ih =>
    intro t node scope later
    have room : levels + 1 = t.options.maxDepth - t.depth := by rw [later.options, later.depth, left]
    have inside : levels = t.options.maxDepth - (t.depth + 1) := by omega
    obtain ⟨events, same, course, blind⟩ :=
      inferNode_tells (s := { t with depth := t.depth + 1 }) (ih inside) node scope
    have whole := tell_blind blind
    have forces : t.Forces node scope =
        ForcesBy (infer levels) { t with depth := t.depth + 1 } node scope := by
      rw [inside]
      rfl
    rw [← forces] at course
    unfold Tells
    rw [infer_run_succ, tell_succ]
    by_cases spent : t.exhausted = true
    · rw [if_pos spent, if_pos spent]
      exact ⟨_, rfl, .passed node scope spent, whole⟩
    · rw [if_neg spent, if_neg spent, same]
      exact ⟨_, rfl, .inside node scope (by omega) (Bool.eq_false_iff.mpr spent) course, whole⟩

end Analysis

end RubyInfer
