import RubyInfer.Proofs.Cache.Work
import RubyInfer.Proofs.Session.Members

/-!
# Calls come to an end

`Call.step` performs a call by asking for the visits and the parts of targets inside it, and has no
bound of its own. Calls settle all the same: a visit takes one of the levels that the options give,
whatever is loaded and applied on the way, and the parts of a target have smaller numbers than the
target.
-/

namespace RubyInfer.Session

open Analysis

variable {R : Regime} {s t : Session} {start : Session} {scope : ScopeId} {node : NodeRef}
    {child : NodeId} {levels : Nat}

/-! ## Nesting -/

theorem Nested.modify {scopes : Scopes} {functions : Array FunctionRecord}
    (nested : Nested scopes functions) (id : FunctionId)
    (f : FunctionRecord → FunctionRecord) (env : ∀ r, (f r).env = r.env) :
    Nested scopes (functions.modify id f) := by
  refine ⟨nested.global, nested.parents, fun {j g} here => ?_⟩
  obtain ⟨old, there, rfl | rfl⟩ := getElem?_modify_eq_some here
  · exact nested.functions there
  · rw [env]
    exact nested.functions there

theorem Nested.queueFunction (nested : Nested s.scopes s.functions) (node : NodeRef) (name : String)
    {env : ScopeId}
    (around : env < s.scopes.size) (owner : Option Owner) (classLevel isLambda : Bool) :
    Nested (s.queueFunction node name env owner classLevel isLambda).scopes
      (s.queueFunction node name env owner classLevel isLambda).functions := by
  have waits (u : Session) (id : FunctionId) (nested : Nested u.scopes u.functions) :
      Nested (u.addUncalled id).scopes (u.addUncalled id).functions := by
    unfold addUncalled
    split <;> exact nested
  apply waits
  unfold functionFor
  split
  · exact nested
  · refine ⟨nested.global, nested.parents, fun {j f} here => ?_⟩
    obtain old | rfl := getElem?_push_eq_some here
    · exact nested.functions old
    · exact around

theorem Runs.nested (run : Runs R s t) (asked : R.inScope) (nested : Nested s.scopes s.functions) :
    Nested t.scopes t.functions := by
  induction run with
  | refl => exact nested
  | update _ plain => exact plain.nested asked nested
  | define node name env owner classLevel isLambda _ around =>
    exact nested.queueFunction node name (around asked) ..
  | markCalled id => exact nested.modify id (fun f => { f with called := true }) fun _ => rfl
  | clearFailure | exhaust => exact nested
  | trans _ _ first second => exact second (first nested)
  | visit _ _ inside => exact inside nested
  | staticBody _ _ inside => exact inside nested
  | file _ _ _ inside => exact inside nested
  | call key _ _ _ _ _ _ _ _ inside =>
    have body := inside (nested.modify key.function (fun f => { f with active := f.active + 1 }) fun _ => rfl)
    dsimp only [popCall, modifyFunction]
    exact body.modify key.function _ (by intro _; rfl)

theorem Act.nested (step : Act s t) (idle : s.Idle) (sound : s.Sound .placed)
    (nested : Nested s.scopes s.functions) :
    Nested t.scopes t.functions := by
  cases step with
  | advance step =>
    cases step with
    | begin | prewarm => exact nested
    | load path force => exact (runs_load sound idle.depth path force).nested trivial nested
    | drain id => exact (runs_apply sound idle.depth id).nested trivial nested
  | removeFile path =>
    refine ⟨?_, fun {id scope} here p set => ?_, fun here => ?_⟩
    · exact Nat.lt_of_lt_of_eq nested.global (s.scopes.size_purge _).symm
    · replace here : (s.scopes.purge _).arena[id]? = some scope := here
      rw [Scopes.getElem?_purge] at here
      obtain ⟨old, there, rfl⟩ := Option.map_eq_some_iff.mp here
      exact nested.parents there p set
    · exact Nat.lt_of_lt_of_eq (nested.functions here) (s.scopes.size_purge _).symm
  | edit | setStatic | clearCache | reportUnused => exact nested

theorem Passed.nested (passed : Passed s) : Nested s.scopes s.functions := by
  induction passed with
  | new made =>
    rw [new_eq made]
    refine ⟨Nat.zero_lt_one, fun {id scope} here p set => ?_, fun here => by simp at here⟩
    obtain ⟨rfl, rfl⟩ : id = 0 ∧ scope = ⟨.global, none, "", []⟩ := by
      obtain ⟨inRange, same⟩ := Array.getElem?_eq_some_iff.mp here
      have first : id = 0 := Nat.lt_one_iff.mp inRange
      subst first
      exact ⟨rfl, same.symm⟩
    cases set
  | act before step nested => exact step.nested before.idle before.sound nested

/-! ## One step -/

def visitOf (again : Call × Session → Option Ty × Session) : Visit := fun node scope =>
  modifyGet fun s => ((again (.visit node scope, s)).1.getD .unknown, (again (.visit node scope, s)).2)

def bindPartOf (again : Call × Session → Option Ty × Session) (kind : BindingKind) (scope : ScopeId)
    (part : NodeRef) (ty : Ty) :
    Analysis Unit := modify fun s => (again (.bindTarget part ty kind scope, s)).2

def deepen (visit : Visit) : Visit := fun node scope => do
  let s ← get
  if s.exhausted then return .unknown
  if s.options.maxDepth ≤ s.depth then
    modify fun s => { s with exhausted := true }
    return .unknown
  modify fun s => { s with depth := s.depth + 1 }
  let ty ← inferNode visit node scope
  modify fun s => { s with depth := s.depth - 1 }
  return ty

def Call.step (again : Call × Session → Option Ty × Session) : Call × Session → Option Ty × Session
  | (.visit node scope, s) =>
    (do return some (← deepen (visitOf again) node scope) : Analysis (Option Ty)).run s
  | (.bindTarget target ty kind scope, s) =>
    (do bindStep (visitOf again) (bindPartOf again kind scope) kind scope target ty
        return none : Analysis (Option Ty)).run s
  | (c, s) => (c.perform (visitOf again)).run s

variable {again : Call × Session → Option Ty × Session}

def answer (q : Call × Session) : Option Ty × Session :=
  (q.1.perform (infer (q.2.options.maxDepth - q.2.depth))).run q.2

/-! ## Visits -/

def Asks (start : Session) (levels : Nat) (q : Call × Session) : Prop :=
  ∃ node scope, q.1 = .visit node scope ∧ Ready .placed ⟨start, levels⟩ q.2 ∧ q.2.HasScope .placed scope

theorem infer_does (R : Regime) (start : Session) (levels : Nat) (spends : R.spends) :
    Follows R ⟨start, levels⟩ (infer levels) (infer levels) := by
  intro s node scope ready there
  obtain ⟨-, run, typed⟩ :=
    infer_follows R start (fun _ => True) (fun _ _ => trivial) spends levels node ready there
  exact ⟨rfl, run, typed⟩

theorem visitOf_follows (agrees : ∀ q, Asks start levels q → again q = answer q) :
    Follows .placed ⟨start, levels⟩ (infer levels) (visitOf again) := by
  intro s node scope ready there
  obtain ⟨-, run, typed⟩ := infer_does .placed start levels trivial node ready there
  refine ⟨?_, run, typed⟩
  have same := agrees (.visit node scope, s) ⟨node, scope, rfl, ready, there⟩
  have left : s.options.maxDepth - s.depth = levels := ready.levels.symm
  unfold answer at same
  rw [left] at same
  show ((again (.visit node scope, s)).1.getD .unknown, (again (.visit node scope, s)).2) = _
  rw [same]
  rfl

theorem deepen_run (visit : Visit) (node : NodeRef) (scope : ScopeId) (s : Session) :
    (deepen visit node scope).run s =
      if s.exhausted then (.unknown, s)
      else if s.options.maxDepth ≤ s.depth then (.unknown, { s with exhausted := true })
      else inside visit node scope s := by
  unfold deepen
  rw [run_get]
  split
  · rfl
  · split <;> rfl

theorem deepen_run_eq {visit : Visit} (sound : s.Sound .placed) (node : NodeRef)
    (there : s.HasScope .placed scope)
    (follows : ∀ levels, s.options.maxDepth - s.depth = levels + 1 →
      Follows .placed ⟨{ s with depth := s.depth + 1 }, levels⟩ (infer levels) visit) :
    (deepen visit node scope).run s = (infer (s.options.maxDepth - s.depth) node scope).run s := by
  rw [deepen_run]
  cases left : s.options.maxDepth - s.depth with
  | zero =>
    have reached : s.options.maxDepth ≤ s.depth := Nat.le_of_sub_eq_zero left
    show _ = (Ty.unknown, { s with exhausted := true })
    rw [if_pos reached]
    split
    · rename_i spent
      rw [← spent]
    · rfl
  | succ levels =>
    have under : ¬ s.options.maxDepth ≤ s.depth := by omega
    rw [infer_run_succ, if_neg under]
    split
    · rfl
    · have deeper : Ready .placed ⟨{ s with depth := s.depth + 1 }, levels⟩
        { s with depth := s.depth + 1 } := by
        refine ⟨(Change.depth (s.depth + 1)).sound sound, rfl, ?_, fun _ => Nat.le_max_left ..⟩
        show levels = s.options.maxDepth - (s.depth + 1)
        omega
      have same := (inferNode_does (follows levels left) deeper there node).1
      unfold inside
      rw [same]

theorem settles_visit (sound : s.Sound .placed) (node : NodeRef) (there : s.HasScope .placed scope) :
    Settles Call.step (.visit node scope, s) (answer (.visit node scope, s)) := by
  generalize left : s.options.maxDepth - s.depth = levels
  induction levels generalizing s node scope with
  | zero =>
    refine .intro (fun _ => False) answer (fun _ asked => asked.elim) fun other _ => ?_
    refine congrArg (fun r : Ty × Session => (some r.1, r.2))
      (deepen_run_eq sound node there fun levels more => ?_)
    rw [left] at more
    cases more
  | succ levels ih =>
    refine .intro (Asks { s with depth := s.depth + 1 } levels) answer ?_ fun other agrees => ?_
    · rintro ⟨c, u⟩ ⟨node, scope, rfl, ready, there⟩
      exact ih ready.sound node there ready.levels.symm
    · refine congrArg (fun r : Ty × Session => (some r.1, r.2))
        (deepen_run_eq sound node there fun levels' more => ?_)
      rw [left] at more
      cases more
      exact visitOf_follows agrees

/-! ## Targets -/

/-- Children have smaller numbers than their nodes in all trees that calls from here may meet. -/
def Arenas (s : Session) : Prop := ∀ w, Cache.Work (s.cache, s.files) w → ∀ a ∈ w.1.trees, a.Descends

theorem Arenas.after (arenas : s.Arenas) (run : Runs R s t) : t.Arenas :=
  fun w work => arenas w (run.work.trans work)

theorem ne_void_of_child (mem : child ∈ (s.kind node).children) : s.kind node ≠ .void := by
  intro empty
  simp [empty, Kind.children] at mem

theorem Arenas.child_lt (arenas : s.Arenas) (mem : child ∈ (s.kind node).children) : child < node.id := by
  obtain ⟨a, held⟩ : ∃ a, s.cache.trees[node.tree]? = some a :=
    ⟨_, Array.getElem?_eq_getElem (lt_size_of_kind (ne_void_of_child mem))⟩
  unfold kind tree at mem
  rw [held] at mem
  exact arenas _ (.refl _) a (Array.mem_of_getElem? held) node.id child mem

theorem lt_size_of_child (mem : child ∈ (s.kind node).children) : node.id < (s.tree node).size := by
  by_contra absent
  refine ne_void_of_child mem ?_
  unfold kind Ast.kind
  rw [Array.getElem?_eq_none (Nat.le_of_not_lt absent)]
  rfl

def AsksPart (start : Session) (levels : Nat) (kind : BindingKind) (scope : ScopeId)
    (target : NodeRef) (q : Call × Session) : Prop :=
  ∃ id ty, q.1 = .bindTarget (target.sibling id) ty kind scope ∧ id < target.id ∧
    Ready .placed ⟨start, levels⟩ q.2 ∧
    q.2.HasScope .placed scope ∧ q.2.Arenas

theorem answer_bindTarget (ready : Ready .placed ⟨start, levels⟩ s) (target : NodeRef) (ty : Ty)
    (kind : BindingKind) (scope : ScopeId) :
    answer (.bindTarget target ty kind scope, s) =
      (none, ((bindTargetWithin (infer levels) kind scope ((s.tree target).size + 1) target ty).run
        s).2) := by
  have left : s.options.maxDepth - s.depth = levels := ready.levels.symm
  unfold answer
  dsimp only
  rw [left]
  rfl

theorem settles_bindTargetWithin (kind : BindingKind) (target : NodeRef) (ty : Ty)
    (ready : Ready .placed ⟨start, levels⟩ s)
    (there : s.HasScope .placed scope) (arenas : s.Arenas) {bound : Nat} (positive : 0 < bound)
    (enough : ∀ child ∈ (s.kind target).children, target.id < bound) :
    Settles Call.step (.bindTarget target ty kind scope, s)
      (none, ((bindTargetWithin (infer levels) kind scope bound target ty).run s).2) := by
  induction number : target.id using Nat.strong_induction_on generalizing s target ty bound with
  | _ n ih =>
    subst number
    -- The size of the tree is one bound that suffices for a part, and all that suffice give the
    -- same.
    have whole {u : Session} {id : NodeId} (ty : Ty) (smaller : id < target.id)
        (ready : Ready .placed ⟨start, levels⟩ u)
        (there : u.HasScope .placed scope) (arenas : u.Arenas) :
        Settles Call.step (.bindTarget (target.sibling id) ty kind scope, u)
          (answer (.bindTarget (target.sibling id) ty kind scope, u)) := by
      rw [answer_bindTarget ready]
      exact ih id smaller _ ty ready there arenas (Nat.succ_pos _)
        (fun _ mem => Nat.lt_succ_of_lt (lt_size_of_child mem)) rfl
    refine .intro (fun q => Asks start levels q ∨ AsksPart start levels kind scope target q) answer
      ?_ fun other agrees => ?_
    · rintro ⟨c, u⟩ (⟨node, scope, rfl, ready, there⟩ | ⟨id, ty, rfl, smaller, ready, there, arenas⟩)
      · exact settles_visit ready.sound node there
      · exact whole ty smaller ready there arenas
    · obtain ⟨below, rfl⟩ := Nat.exists_eq_succ_of_ne_zero (Nat.ne_of_gt positive)
      have follows : Follows .placed ⟨start, levels⟩ (infer levels) (visitOf other) :=
        visitOf_follows fun q visit => agrees q (.inl visit)
      refine congrArg (fun r : Unit × Session => (none, r.2))
        (bindStep_does follows kind trivial ready there ?_).1
      intro id mem u ty run _
      have smaller : id < target.id := arenas.child_lt mem
      have small : id < below := Nat.lt_of_lt_of_le smaller (Nat.le_of_lt_succ (enough id mem))
      replace ready := ready.after run
      replace there := there.after run
      replace arenas := arenas.after run
      have part := ih id smaller (target.sibling id) ty ready there arenas (Nat.zero_lt_of_lt small)
        (fun _ _ => small) rfl
      have same : other (.bindTarget (target.sibling id) ty kind scope, u) = _ :=
        (agrees _ (.inr ⟨id, ty, rfl, smaller, ready, there, arenas⟩)).trans
          ((whole ty smaller ready there arenas).unique part)
      have bound := (@bindTargetWithin_does .placed u scope ty _ _ _
        (infer_does .placed start levels trivial) kind below
        (target.sibling id) trivial ready there).2
      exact ⟨congrArg (fun r : Option Ty × Session => ((), r.2)) same, bound⟩

/-! ## Calls -/

theorem settles_perform (sound : s.Sound .placed) {c : Call} (fits : c.Fits .placed s)
    (unfolds : ∀ again, Call.step again (c, s) = (c.perform (visitOf again)).run s) :
    Settles Call.step (c, s) (answer (c, s)) := by
  refine .intro (Asks s (s.options.maxDepth - s.depth)) answer ?_ fun other agrees => ?_
  · rintro ⟨c, u⟩ ⟨node, scope, rfl, ready, there⟩
    exact settles_visit ready.sound node there
  · rw [unfolds]
    exact (perform_does (visitOf_follows agrees) (ready_self sound) c fits).1

theorem settles_call (sound : s.Sound .placed) (arenas : s.Arenas) (c : Call) (fits : c.Fits .placed s) :
    Settles Call.step (c, s) (answer (c, s)) := by
  cases c with
  | visit node scope => exact settles_visit sound node fits
  | bindTarget target ty kind scope =>
    rw [answer_bindTarget (ready_self sound)]
    exact settles_bindTargetWithin kind target ty (ready_self sound) fits.2 arenas (Nat.succ_pos _)
      (fun _ mem => Nat.lt_succ_of_lt (lt_size_of_child mem))
  | apply => exact settles_perform sound fits fun _ => rfl
  | applyAll => exact settles_perform sound fits fun _ => rfl
  | load => exact settles_perform sound fits fun _ => rfl
  | require => exact settles_perform sound fits fun _ => rfl

/-! ## Projects -/

def analyzeBy (again : Call × Session → Option Ty × Session) (s : Session) (root : Path) :
    Except AnalysisError Session :=
  match s.files.canonical root with
  | .error e => .error (.configuration root e.message)
  | .ok top =>
    let project := if s.files.isFolder top then top else top.parent?.getD top
    let s := { s with phase := .loading, projectDir := some project }
    let files := s.sources top
    .ok (files.foldl (fun s file => if s.loaded.contains file then s else (again (.load file false, s)).2)
      (if s.options.prewarm then s.prewarm files else s))

def AsksLoad (q : Call × Session) : Prop := ∃ file force, q.1 = .load file force ∧
    q.2.Sound .placed ∧ q.2.depth = 0

theorem answer_load (atTop : s.depth = 0) (file : Path) (force : Bool) :
    answer (.load file force, s) = (Analysis.load inferTop file force).run s := by
  exact (load_does (inferTop_follows .any atTop) (ready_self s.sound_any) file force).1.symm

theorem loadAll_eq (agrees : ∀ q, AsksLoad q → again q = answer q) (sound : s.Sound .placed)
    (atTop : s.depth = 0) (files : List Path) :
    files.foldl (fun s file => if s.loaded.contains file then s else
      (again (.load file false, s)).2) s = s.loadAll files := by
  unfold loadAll
  induction files generalizing s with
  | nil => rfl
  | cons file files ih =>
    have same : (again (.load file false, s)).2 = (s.loadFile file).2 := by
      rw [agrees _ ⟨file, false, rfl, sound, atTop⟩, answer_load atTop]
      rfl
    rw [List.foldl_cons, List.foldl_cons, same]
    split
    · exact ih sound atTop
    · have run := runs_load sound atTop file false
      exact ih (run.sound sound) (run.guards.depth.trans atTop)

theorem rests_analyze (sound : s.Sound .placed) (atTop : s.depth = 0) (root : Path) :
    Rests Call.step (fun again => s.analyzeBy again root) (s.analyze root) := by
  refine ⟨AsksLoad, answer, ?_, fun other agrees => ?_⟩
  · rintro ⟨c, u⟩ ⟨file, force, rfl, sound, -⟩
    exact settles_perform sound trivial fun _ => rfl
  · unfold analyzeBy analyze
    cases s.files.canonical root with
    | error e => rfl
    | ok top =>
      dsimp only
      congr 1
      have begun := (Advance.begin (s := s) .loading
        (some (if s.files.isFolder top then top else top.parent?.getD top))).sound atTop sound
      split
      · exact loadAll_eq agrees (Advance.sound (.prewarm _) (by exact atTop) begun) atTop _
      · exact loadAll_eq agrees begun atTop _

/-! ## Sessions -/

/-- What calls rely on: scopes stand in each other, and trees are numbered from the inside out. -/
structure WellFormed (s : Session) : Prop where
  sound : s.Sound .placed
  nested : Nested s.scopes s.functions
  arenas : s.Arenas

inductive Leads : Session → Session → Prop
  | run {s t : Session} (run : Runs .placed s t) : Leads s t
  | deeper (s : Session) : Leads s { s with depth := s.depth + 1 }
  | static (s : Session) (on : Bool) : Leads s { s with staticContext := on }
  | file (s : Session) (path : Path) : Leads s (s.openFile path)
  | call (s : Session) (key : CallKey) : Leads s (s.pushCall key)
  | trans {s t u : Session} (first : Leads s t) (second : Leads t u) : Leads s u

theorem WellFormed.leads (wellFormed : s.WellFormed) (leads : Leads s t) : t.WellFormed := by
  induction leads with
  | run run => exact ⟨run.sound wellFormed.sound, run.nested trivial wellFormed.nested,
      wellFormed.arenas.after run⟩
  | deeper s => exact { wellFormed with sound := (Change.depth _).sound wellFormed.sound }
  | static s on => exact { wellFormed with sound := (Change.staticContext on).sound wellFormed.sound }
  | file s path => exact { wellFormed with sound := (Change.openFile path).sound wellFormed.sound }
  | call s key =>
    refine ⟨(Change.pushCall key trivial fun _ _ => trivial).sound wellFormed.sound, ?_, wellFormed.arenas⟩
    exact wellFormed.nested.modify key.function (fun f => { f with active := f.active + 1 }) fun _ => rfl
  | trans _ _ first second => exact second (first wellFormed)

theorem Passed.dumped (passed : Passed s) (inMemory : s.cache.disk = none) : s.cache.Dumped := by
  induction passed with
  | @new options files s made => exact ⟨inMemory, by rw [trees_new made]; simp⟩
  | act before step dumped =>
    cases step with
    | advance step =>
      have work := step.work before.idle.depth
      exact (dumped (work.disk.symm.trans inMemory)).work work
    | clearCache => exact ⟨inMemory, (dumped inMemory).trees⟩
    | removeFile => exact ⟨inMemory, (dumped inMemory).trees⟩
    | edit | setStatic | reportUnused => exact dumped inMemory

theorem wellFormed_of_reachable (reached : Reachable s) (arenas : s.cache.disk = none ∨ s.Arenas) :
    s.WellFormed := by
  refine ⟨reached.passed.sound, reached.passed.nested, ?_⟩
  rcases arenas with inMemory | arenas
  · exact fun w work a mem => (((reached.passed.dumped inMemory).work work).trees a mem).descends
  · exact arenas

/-- **Calls come to an end.** They do so without any bound but the levels that the options give, and
they give what the bounded definitions give; so do the loading of a project and the look-ups,
whatever circles there are. What calls rely on holds of every reachable session whose trees are
numbered from the inside out, and of every session that calls go through. -/
theorem calls_settle :
    (∀ s, Reachable s → (s.cache.disk = none ∨ s.Arenas) → s.WellFormed) ∧
    ∀ s, s.WellFormed →
      (∀ c, c.Fits .placed s → ∀ a, Settles Call.step (c, s) a ↔ a = answer (c, s)) ∧
      (∀ root, s.depth = 0 → Rests Call.step (fun again => s.analyzeBy again root) (s.analyze root)) ∧
      (∀ name tiers m a,
        Settles (s.moduleStep name tiers) ([], m) a ↔
          a = s.moduleMemberWithin name tiers (s.modules.size + 1) [] m) ∧
      (∀ side name seen c a, Settles (s.classStep side name) (seen, c) a ↔
        a = s.classMember side name seen c) ∧
      (∀ scope a, Settles s.chainStep scope a ↔ a = s.scopes.chain scope) ∧
      ∀ t, Leads s t → t.WellFormed := by
  refine ⟨fun s => wellFormed_of_reachable, fun s wellFormed =>
    ⟨?_, ?_, ?_, ?_, ?_, fun t => wellFormed.leads⟩⟩
  · exact fun c fits => (settles_call wellFormed.sound wellFormed.arenas c fits).iff
  · exact fun root atTop => rests_analyze wellFormed.sound atTop root
  · exact fun name tiers m =>
    (s.settles_moduleMember name tiers m (Nat.lt_succ_of_le (unseen_le_size ..))).iff
  · exact fun side name seen c =>
    (s.settles_classMember side name c (Nat.lt_succ_of_le (unseen_le_size ..))).iff
  · exact fun scope => (s.settles_chain wellFormed.nested scope (Nat.lt_succ_self scope)).iff

def circular : String :=
  "\x7b\"type\":\"block\",\"stmts\":[\x7b\"type\":\"call\",\"func\":\x7b\"type\":\"name\"," ++
    "\"id\":\"require\"\x7d,\"args\":\x7b\"positional\":[\x7b\"type\":\"string\",\"id\":\"a\"\x7d]\x7d\x7d," ++
    "\x7b\"type\":\"def\"," ++
    "\"name\":\x7b\"type\":\"name\",\"id\":\"f\"\x7d,\"params\":\x7b\x7d,\"body\":\x7b\"type\":\"call\"," ++
    "\"func\":\x7b\"type\":\"name\",\"id\":\"f\"\x7d,\"args\":\x7b\"positional\":[]\x7d\x7d\x7d," ++
    "\x7b\"type\":\"call\",\"func\":\x7b\"type\":\"name\",\"id\":\"f\"\x7d," ++
    "\"args\":\x7b\"positional\":[]\x7d\x7d]\x7d"

def beforeCircular : Session where
  options := { cacheDir := ⟨"cache"⟩, diskCache := false }
  files := { root := .folder [("a.rb", .file circular.toUTF8)] }
  cache := { dumper := .content }

theorem calls_settle_circular :
    ∃ s, Reachable s ∧ s.cache.disk = none ∧ s.WellFormed ∧
      ∃ a, Settles Call.step (.load ⟨"/a.rb"⟩ false, s) a ∧
      a.2.loaded.size = 1 ∧ a.2.calls = 2 := by
  have fresh : Reachable beforeCircular := reachable_empty _ _ rfl rfl
  have wellFormed := calls_settle.1 _ fresh (.inl rfl)
  refine ⟨_, fresh, rfl, wellFormed, _,
    ((calls_settle.2 _ wellFormed).1 (.load ⟨"/a.rb"⟩ false) trivial _).mpr rfl, ?_⟩
  decide +kernel

end RubyInfer.Session
