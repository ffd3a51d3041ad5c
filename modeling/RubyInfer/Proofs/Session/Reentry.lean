import RubyInfer.Proofs.Session.Telling

/-!
# Applications within applications

A call is cut short while the same call is under way, or while its function is active too often.
Both are noted when the body is entered, which is after the parameters are bound. So everything that
happens in the body is guarded, but what happens in a default value is not: there the same call
begins again (`application_guarded`, `default_reenters`).
-/

namespace RubyInfer

namespace Told

variable {α β : Type} {s : Session}

def Silent (x : Told α) (s : Session) : Prop :=
  (∀ node scope m, Event.visit node scope m ∉ (x s).2.2) ∧ (x s).2.1.cache = s.cache

theorem Silent.not_mem {x : Told α} (silent : Silent x s) {a : α} {t : Session}
    {events : List Event} (ran : x s = (a, t, events))
    (node : NodeRef) (scope : ScopeId) (m : Session) : Event.visit node scope m ∉ events := by
  have quiet := silent.1 node scope m
  rwa [ran] at quiet

theorem Silent.pure (a : α) : Silent (pure a) s := ⟨fun _ _ _ => List.not_mem_nil, rfl⟩

theorem Silent.modify {c : Session → Session} (same : (c s).cache = s.cache) : Silent (modify c) s :=
  ⟨fun _ _ _ mem => (by cases mem with | tail _ mem => cases mem), same⟩

theorem Silent.bind {x : Told α} {f : α → Told β} (first : Silent x s)
    (next : ∀ a t, t.cache = s.cache → Silent (f a) t) :
    Silent (x >>= f) s := by
  have rest := next (x s).1 (x s).2.1 first.2
  exact ⟨fun node scope m mem =>
    (List.mem_append.mp mem).elim (first.1 node scope m) (rest.1 node scope m), rest.2.trans first.2⟩

theorem Silent.get {f : Session → Told β} (next : Silent (f s) s) : Silent (get >>= f) s := next

theorem Silent.optionForM {o : Option α} {f : α → Told PUnit} (each : ∀ a ∈ o, Silent (f a) s) :
    Silent (o.forM f) s := by
  cases o with
  | none => exact .pure _
  | some a => exact each a rfl

end Told

namespace Session

variable {s t m : Session} {p : Prop} {o : Option NodeRef} {events : List Event}

/-! ## Bodies under way -/

def underWay (s : Session) (id : FunctionId) : Nat := s.callStack.countP (fun key => key.function = id)

def Noted (s : Session) : Prop := ∀ id, s.underWay id ≤ (s.function id).active

structure Bounded (s m : Session) : Prop where
  options : m.options = s.options
  noted : s.Noted → m.Noted
  underWay (noted : s.Noted) (id : FunctionId) : m.underWay id ≤ max (s.underWay id) s.options.maxRecursion

theorem Bounded.trans {u : Session} (first : Bounded s t) (second : Bounded t u) : Bounded s u where
  options := second.options.trans first.options
  noted holds := second.noted (first.noted holds)
  underWay holds id := by
    have before := first.underWay holds id
    have after := second.underWay (first.noted holds) id
    rw [first.options] at after
    omega

theorem Bounded.of_same (options : t.options = s.options) (callStack : t.callStack = s.callStack)
    (active : ∀ id, (t.function id).active = (s.function id).active) : Bounded s t where
  options := options
  noted holds id := by
    rw [Session.underWay, callStack, active]
    exact holds id
  underWay _ id := by
    rw [Session.underWay, callStack]
    exact Nat.le_max_left ..

theorem bounded_pushCall {key : CallKey} (there : key.function < s.functions.size)
    (room : (s.function key.function).active < s.options.maxRecursion) : Bounded s (s.pushCall key) := by
  have pushed (id : FunctionId) : (s.pushCall key).underWay id = s.underWay id + if key.function =
      id then 1 else 0 := by
    show List.countP _ (key :: s.callStack) = _
    rw [List.countP_cons]
    simp only [decide_eq_true_eq, underWay]
  refine ⟨rfl, fun holds id => ?_, fun holds id => ?_⟩
  · have was := holds id
    rw [pushed, active_pushCall]
    by_cases here : key.function = id
    · rw [if_pos here, if_pos ⟨here, here ▸ there⟩]
      omega
    · rw [if_neg here, if_neg fun both => here both.1]
      exact was
  · have was := holds id
    rw [pushed]
    split
    · subst id
      omega
    · exact Nat.le_max_left ..

theorem Course.bounded (course : Course p o s events t) : ∀ m ∈ through events, Bounded s m :=
  course.way (fun kept => .of_same kept.options kept.callStack kept.active) Bounded.trans
    (fun _ => .of_same rfl rfl fun _ => rfl) (fun _ _ => .of_same rfl rfl fun _ => rfl)
    (fun _ _ there _ room => bounded_pushCall there room)

theorem refuses_of_underWay {key : CallKey} (mem : key ∈ s.callStack) : s.refuses key = true := by
  simp [refuses, mem]

end Session

namespace Analysis

open Session

variable {s t : Session} {node : NodeRef} {ids : List NodeId} {params : Params NodeId}

/-! ## Binding plain parameters -/

def Named (s : Session) (node : NodeRef) (ids : List NodeId) : Prop :=
  ∀ id ∈ ids, ∃ name kind, s.kind (node.sibling id) = .name name kind

theorem Named.after (named : Named s node ids) (same : t.cache = s.cache) : Named t node ids := by
  intro id mem
  have kinds : t.kind (node.sibling id) = s.kind (node.sibling id) := by simp only [kind, tree, same]
  rw [kinds]
  exact named id mem

variable (told : VisitIn Told)

theorem bindParam_silent {id : NodeId} (named : Named s node ids) (mem : id ∈ ids) (ty : Ty)
    (frame : ScopeId) :
    (bindParam told (node.sibling id) ty frame).Silent s := by
  obtain ⟨name, kind, plain⟩ := named id mem
  refine .get ?_
  rw [plain]
  exact .modify rfl

theorem bindPositional_silent (frame : ScopeId) (named : Named s node ids)
    {params : List (NodeId × Option NodeId)}
    (plain : ∀ e ∈ params, e.1 ∈ ids ∧ e.2 = none) (supply : Supply) :
    (bindPositional told node frame params supply).Silent s := by
  induction params generalizing s supply with
  | nil => exact .pure _
  | cons param params ih =>
    obtain ⟨id, default⟩ := param
    obtain ⟨⟨mem, rfl⟩, others⟩ := List.forall_mem_cons.mp plain
    refine .get (.bind (.pure _) fun fallback t read => ?_)
    refine .bind (bindParam_silent told (named.after read) mem _ frame) fun _ u bound => ?_
    exact ih (named.after (bound.trans read)) others _

theorem bindEach_silent (frame : ScopeId) (named : Named s node ids) (args : List Ty) :
    (bindEach told node frame ids args).Silent s := by
  induction ids generalizing s args with
  | nil => exact .pure _
  | cons id ids ih =>
    refine .bind (bindParam_silent told named List.mem_cons_self _ frame) fun _ t same => ?_
    exact ih (fun id mem => named.after same id (List.mem_cons_of_mem _ mem)) _

theorem bindParams_silent (named : Named s node params.children) (without : params.defaults = [])
    (call : CallArgs) (frame : ScopeId) :
    (bindParams told node params call frame).Silent s := by
  have plain : ∀ e ∈ withDefaults params, e.1 ∈ params.children ∧ e.2 = none := by
    intro e mem
    obtain ⟨positional, defaults⟩ := mem_withDefaults mem
    refine ⟨by simp [Params.children, positional], Option.eq_none_iff_forall_not_mem.mpr fun d chosen => ?_⟩
    have := defaults d chosen
    rw [without] at this
    cases this
  have single {t : Session} {o : Option NodeId} (same : t.cache = s.cache)
      (mem : ∀ id ∈ o, id ∈ params.children) (ty : Ty) :
      Told.Silent (o.forM fun id => bindParam told (node.sibling id) ty frame) t :=
    .optionForM fun id chosen => bindParam_silent told (named.after same) (mem id chosen) ty frame
  unfold bindParams
  refine .bind (bindPositional_silent told frame named plain _) fun supply t₁ same₁ => ?_
  refine .bind (bindEach_silent told frame
    (fun id mem => named.after same₁ id (by simp [Params.children, mem])) _) fun _ t₂ same₂ => ?_
  replace same₂ := same₂.trans same₁
  refine .bind (single same₂ (fun id chosen => by simp [Params.children, Option.mem_def.mp chosen])
    _) fun _ t₃ same₃ => ?_
  replace same₃ := same₃.trans same₂
  refine .bind (single same₃ (fun id chosen => by simp [Params.children, Option.mem_def.mp chosen])
    _) fun _ t₄ same₄ => ?_
  replace same₄ := same₄.trans same₃
  refine .bind (single same₄ (fun id chosen => by simp [Params.children, Option.mem_def.mp chosen])
    _) fun _ t₅ same₅ => ?_
  exact .optionForM fun block _ => .modify rfl

theorem cache_enterFrame (s : Session) (id : FunctionId) : (s.enterFrame id).2.cache = s.cache :=
  (quiet_enterFrame id).cache

theorem bindCall_silent {f : FunctionRecord} (id : FunctionId) (locator : Option NodeId)
    (named : Named s f.node params.children)
    (without : params.defaults = []) (receiver : Ty) (call : CallArgs) :
    (bindCall told f id locator params receiver call).Silent s := by
  have framed : Told.Silent (modifyGet (·.enterFrame id)) s :=
    ⟨fun _ _ _ mem => (by cases mem with | tail _ mem => cases mem), cache_enterFrame s id⟩
  unfold bindCall
  refine .bind framed fun frame t same => ?_
  have goOn {u : Session} (same : u.cache = s.cache) :
      Told.Silent (do bindParams told f.node params call frame; return frame) u :=
    .bind (bindParams_silent told (named.after same) without call frame) fun _ _ _ => .pure _
  split
  · exact .bind (.modify rfl) fun _ u bound => goOn (bound.trans same)
  · exact goOn same

/-! ## Applications -/

variable {visit : Visit} {p : Prop} {id : FunctionId} {receiver : Ty} {call : CallArgs}

theorem apply_refused (refused : s.refuses (callKey id receiver call) = true) :
    apply told id receiver call s = (.unknown, s.markCalled id, [.change s (s.markCalled id)]) := by
  unfold apply
  refine Told.run_modify (Told.run_get ?_)
  rw [refuses_markCalled, if_pos refused]
  rfl

theorem apply_granted (granted : s.refuses (callKey id receiver call) = false) {ty : Ty} {events : List Event}
    (entered : enter told (callKey id receiver call) receiver call (s.markCalled id) = (ty, t, events)) :
    apply told id receiver call s = (ty, t, .change s (s.markCalled id) :: events) := by
  unfold apply
  refine Told.run_modify (Told.run_get ?_)
  rw [refuses_markCalled, granted]
  exact entered

variable {told} (key : CallKey)

theorem enter_told (hears : Hears visit told s) {locator : Option NodeId} {body : Option NodeId}
    {isLambda : Bool} {doc : Option String}
    (written : s.kind (s.function key.function).node = .function locator params body isLambda doc)
    (receiver : Ty) (call : CallArgs) :
    ∃ frame entered binding ty last inside,
      bindCall told (s.function key.function) key.function locator params receiver call s =
        (frame, entered, binding) ∧
      Course False none s binding entered ∧ Course False none (entered.pushCall key) inside last ∧
      enter told key receiver call s = ((last.popCall key ty).1, (last.popCall key ty).2,
        binding ++ .change entered (entered.pushCall key) ::
          (inside ++ [.change last (last.popCall key ty).2])) := by
  obtain ⟨-, given, inner⟩ := parts_function.mp (parts_of_kind written)
  obtain ⟨frame, entered, binding, -, bound, before⟩ :=
    (bindCall_tells (p := False) hears key.function locator given receiver call).split
  have pushed : Later entered (entered.pushCall key) := ⟨rfl, rfl, List.prefix_rfl⟩
  have later := before.steady.later.trans pushed
  have tells : Tells False none (entered.pushCall key) (visitOption visit _ body frame)
      (visitOption told _ body frame) :=
    visitOption_tells (hears.after later) (inner.after later)
  obtain ⟨ty, last, inside, -, inferred, within⟩ := tells.split
  refine ⟨frame, entered, binding, ty, last, inside, bound, before, within, ?_⟩
  rw [enter_eq]
  refine Told.run_get (Told.run_get ?_)
  rw [written]
  have popped := Told.run_bind inferred (f := fun ty => modifyGet (·.popCall key ty)) rfl
  exact Told.run_bind bound (Told.run_modify popped)

/-- **What a call is guarded against.** A call that is granted first binds the parameters of its
function and then infers the body. From the moment the body is entered until its end, the same call
is refused wherever it comes from, and nothing of the function is visited for it. At all times no
more bodies of a function are being inferred than is allowed. Where the parameters are plain names
without default values, nothing is visited before the body is entered, so that the whole application
is guarded. -/
theorem application_guarded {levels : Nat} (left : levels = s.options.maxDepth - s.depth) (noted : s.Noted)
    (granted : s.refuses (callKey id receiver call) = false) {locator : Option NodeId}
    {params : Params NodeId} {body : Option NodeId} {isLambda : Bool} {doc : Option String}
    (written : s.kind (s.function id).node = .function locator params body isLambda doc) :
    ∃ ty done binding entered inside last,
      (apply (infer levels) id receiver call).run s = (ty, done) ∧
      apply (tell levels) id receiver call s = (ty, done, .change s (s.markCalled id) :: (binding ++
        .change entered (entered.pushCall (callKey id receiver call)) :: (inside ++ [.change last done]))) ∧
      (∀ m ∈ entered.pushCall (callKey id receiver call) :: through inside,
        ∀ (told : VisitIn Told) (receiver' : Ty) (call' : CallArgs),
        callKey id receiver' call' = callKey id receiver call →
          apply told id receiver' call' m = (.unknown, m.markCalled id, [.change m (m.markCalled id)])) ∧
      (∀ m ∈ through (apply (tell levels) id receiver call s).2.2, ∀ f,
        m.underWay f ≤ max (s.underWay f) s.options.maxRecursion) ∧
      (params.defaults = [] → Named s (s.function id).node params.children → ∀ node scope m,
        .visit node scope m ∉ binding) := by
  have hears := tell_hears levels left
  have here := node_markCalled s id
  have defined : (s.markCalled id).kind ((s.markCalled id).function id).node =
      .function locator params body isLambda doc :=
    here.symm ▸ written
  obtain ⟨frame, entered, binding, ty, last, inside, bound, before, within, whole⟩ :=
    enter_told (callKey id receiver call) (hears.after (quiet_markCalled id).later) defined receiver call
  have applied := apply_granted _ granted whole
  obtain ⟨_, done, events, ran, told, course⟩ := (apply_tells (p := False) hears id receiver call).split
  have same := told.symm.trans applied
  simp only [Prod.mk.injEq] at same
  obtain ⟨rfl, rfl, rfl⟩ := same
  refine ⟨_, _, binding, entered, inside, last, ran, applied, ?_, ?_, ?_⟩
  · intro m mem told receiver' call' key
    refine apply_refused told (refuses_of_underWay ?_)
    rw [key]
    rcases List.mem_cons.mp mem with rfl | mem
    · exact List.mem_cons_self
    · exact (within.around m mem).callStack.subset List.mem_cons_self
  · rw [told]
    exact fun m mem f => (course.bounded m mem).underWay noted f
  · intro without named node m
    replace named : Named (s.markCalled id) ((s.markCalled id).function id).node params.children :=
      here.symm ▸ named.after rfl
    have silent := bindCall_silent (tell levels) id locator named without receiver call
    exact silent.not_mem bound node m

def recursiveDefault : String :=
  "\x7b\"type\":\"def\",\"name\":\x7b\"type\":\"name\",\"id\":\"f\"\x7d," ++
    "\"params\":\x7b\"positional\":[\x7b\"type\":\"name\",\"id\":\"x\"\x7d]," ++
    "\"defaults\":[\x7b\"type\":\"call\",\"func\":\x7b\"type\":\"name\",\"id\":\"f\"\x7d," ++
    "\"args\":\x7b\x7d\x7d]\x7d," ++
    "\"body\":\x7b\"type\":\"call\",\"func\":\x7b\"type\":\"name\",\"id\":\"f\"\x7d,\"args\":\x7b\x7d\x7d\x7d"

def beforeRecursiveDefault : Session where
  options := { cacheDir := ⟨"cache"⟩, diskCache := false, maxRecursion := 1, maxDepth := 3 }
  files := { root := .folder [("a.rb", .file recursiveDefault.toUTF8)] }
  cache := { dumper := .content }

def afterRecursiveDefault : Session := (beforeRecursiveDefault.loadFile ⟨"/a.rb"⟩).2

theorem written_recursiveDefault :
    afterRecursiveDefault.kind (afterRecursiveDefault.function 0).node =
      .function (some 0) { positional := [1], defaults := [3] } (some 5) false none := by
  decide +kernel

theorem granted_recursiveDefault :
    afterRecursiveDefault.callStack = [] ∧ afterRecursiveDefault.refuses (callKey 0 .unknown {}) = false ∧
      afterRecursiveDefault.options.maxRecursion = 1 ∧
      3 = afterRecursiveDefault.options.maxDepth - afterRecursiveDefault.depth := by
  decide +kernel

theorem application_guarded_recursive :
    afterRecursiveDefault.refuses (callKey 0 .unknown {}) = false ∧
      afterRecursiveDefault.options.maxRecursion = 1 ∧
      ∀ m ∈ through (apply (tell 3) 0 .unknown {} afterRecursiveDefault).2.2, m.underWay 0 ≤ 1 := by
  obtain ⟨idle, granted, single, left⟩ := granted_recursiveDefault
  have free (id : FunctionId) : afterRecursiveDefault.underWay id = 0 := by simp [underWay, idle]
  have noted : afterRecursiveDefault.Noted := fun id => (free id).symm ▸ Nat.zero_le _
  obtain ⟨_, _, _, _, _, _, -, -, -, bounded, -⟩ :=
    application_guarded left noted granted written_recursiveDefault
  refine ⟨granted, single, fun m mem => ?_⟩
  have bound := bounded m mem 0
  rwa [free, single] at bound

def visitedAt (node : NodeRef) (events : List Event) : List Nat :=
  events.filterMap fun
    | .visit visited _ m => if visited = node then some m.depth else none
    | .change _ _ => none

/-- A function may be active once, and its default value calls it. Each call begins another one
before its body is entered, until no level is left: four applications are in progress. -/
theorem default_reenters :
    ∃ (s : Session) (id : FunctionId) (locator body : Option NodeId) (params : Params NodeId) (d : NodeId),
      s.callStack = [] ∧ s.refuses (callKey id .unknown {}) = false ∧ s.options.maxRecursion = 1 ∧
      s.kind (s.function id).node = .function locator params body false none ∧ d ∈ params.defaults ∧
      visitedAt ((s.function id).node.sibling d)
        (apply (tell (s.options.maxDepth - s.depth)) id .unknown {} s).2.2 = [0, 1, 2, 3] := by
  obtain ⟨idle, granted, single, left⟩ := granted_recursiveDefault
  refine ⟨_, _, _, _, _, 3, idle, granted, single, written_recursiveDefault, List.mem_singleton.mpr rfl, ?_⟩
  rw [← left]
  decide +kernel

end Analysis

end RubyInfer
