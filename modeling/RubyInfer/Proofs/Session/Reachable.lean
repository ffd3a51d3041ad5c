import RubyInfer.Proofs.Session.Inference

/-!
# Reachable sessions

`Call` lists the ways into inference, and `Reachable` the sessions that a user can bring about.
Operations are made of few acts, so what the acts keep holds of every reachable session
(`Reachable.passed`); calls are runs (`runs_call`), also those that are made from the top with all
levels (`inferTop_follows`). The first such facts: nothing is under way between operations
(`Passed.idle`), and the session is sound (`Passed.sound`).
-/

namespace RubyInfer

open Analysis

/-! ## Regimes -/

def Regime.any : Regime := ⟨fun _ => True, Ty.true_closed, False, True⟩

def Regime.flat : Regime := ⟨Ty.Flat, Ty.flat_closed, False, True⟩

def Regime.placed : Regime := ⟨fun _ => True, Ty.true_closed, True, True⟩

namespace Session

variable {options : Options} {files : FileTree}

theorem sound_any (s : Session) : s.Sound .any := .of_free (fun _ => trivial) id

/-! ## Calls -/

inductive Call
  | visit (node : NodeRef) (scope : ScopeId)
  | apply (id : FunctionId) (receiver : Ty) (args : CallArgs)
  | applyAll (callee receiver : Ty) (args : CallArgs)
  | bindTarget (target : NodeRef) (ty : Ty) (kind : BindingKind) (scope : ScopeId)
  | load (path : Path) (force : Bool)
  | require (name : String) (force : Bool)

def Call.perform (visit : Visit) : Call → Analysis (Option Ty)
  | .visit node scope => do return some (← visit node scope)
  | .apply id receiver args => do return some (← Analysis.apply visit id receiver args)
  | .applyAll callee receiver args => do return some (← Analysis.applyAll visit callee receiver args)
  | .bindTarget target ty kind scope => do
    Analysis.bindTarget visit target ty kind scope
    return none
  | .load path force => Analysis.load visit path force
  | .require name force => do
    Analysis.require visit name force
    return none

def call (s : Session) (c : Call) : Session := ((c.perform (infer (s.options.maxDepth - s.depth))).run s).2

def Call.Fits (R : Regime) (s : Session) : Call → Prop
  | .visit _ scope => s.HasScope R scope
  | .apply _ receiver args => R.ty receiver ∧ TypedArgs R args
  | .applyAll _ receiver args => R.ty receiver ∧ TypedArgs R args
  | .bindTarget _ ty _ scope => R.ty ty ∧ s.HasScope R scope
  | .load _ _ => True
  | .require _ _ => True

theorem Call.fits_any (c : Call) (s : Session) : c.Fits .any s := by
  have typed (args : CallArgs) : TypedArgs .any args :=
    ⟨fun _ _ => trivial, fun _ _ => trivial, fun _ _ => trivial, fun _ _ => trivial⟩
  cases c with
  | visit => exact fun asked => asked.elim
  | apply _ _ args => exact ⟨trivial, typed args⟩
  | applyAll _ _ args => exact ⟨trivial, typed args⟩
  | bindTarget => exact ⟨trivial, fun asked => asked.elim⟩
  | load => trivial
  | require => trivial

variable {R : Regime} {s t : Session}

theorem perform_does {room : Room} {visit other : Visit} (follows : Follows R room visit other)
    (ready : Ready R room s) (c : Call)
    (fits : c.Fits R s) : Does R s (c.perform visit) (c.perform other)
      (fun found _ => ∀ ty, found = some ty → R.ty ty) := by
  have answer {x y : Analysis Ty} (does : Does R s x y R.typed) :
      Does R s (do return some (← x)) (do return some (← y)) (fun found _ => ∀ ty, found = some ty →
        R.ty ty) :=
    Does.bind does fun _ _ _ typed => .pure fun _ same => Option.some.inj same ▸ typed
  cases c with
  | visit node scope => exact answer (follows node ready fits)
  | apply id receiver args => exact answer (apply_does follows ready id fits.1 fits.2)
  | applyAll callee receiver args => exact answer (applyAll_does follows ready callee fits.1 fits.2)
  | bindTarget target ty kind scope =>
    exact (bindTarget_does follows target fits.1 kind ready fits.2).result fun _ => by simp
  | load path force =>
    obtain ⟨same, run, typed, -⟩ := load_does follows ready path force
    exact ⟨same, run, typed⟩
  | require name force => exact (require_does follows ready name force).result fun _ => by simp

theorem ready_self (sound : s.Sound R) : Ready R ⟨s, s.options.maxDepth - s.depth⟩ s :=
  ⟨sound, rfl, rfl, fun _ => Nat.le_max_left ..⟩

theorem call_does (sound : s.Sound R) (c : Call) (fits : c.Fits R s) (ok : Session → Prop) [DecidablePred ok]
    (passes : ∀ m, Inside s m → ok m) (spends : R.spends := by exact trivial) :
    Does R s (c.perform (infer (s.options.maxDepth - s.depth)))
      (c.perform (inferIf ok (s.options.maxDepth - s.depth)))
      (fun found _ => ∀ ty, found = some ty → R.ty ty) :=
  perform_does (infer_follows R s ok passes spends _) (ready_self sound) c fits

theorem runs_call (sound : s.Sound R) (c : Call) (fits : c.Fits R s)
    (spends : R.spends := by exact trivial) : Runs R s (s.call c) :=
  (call_does sound c fits (fun _ => True) (fun _ _ => trivial) spends).2.1

theorem inferTop_follows (R : Regime) (atTop : s.depth = 0) (spends : R.spends := by exact trivial) :
    Follows R ⟨s, s.options.maxDepth - s.depth⟩ (infer (s.options.maxDepth - s.depth)) inferTop := by
  intro u node scope ready there
  obtain ⟨-, run, typed⟩ := infer_follows R s (fun _ => True) (fun _ _ => trivial) spends _ node ready there
  refine ⟨?_, run, typed⟩
  show (infer u.options.maxDepth node scope).run u = _
  rw [ready.options, atTop]
  rfl

theorem runs_load (sound : s.Sound R) (atTop : s.depth = 0) (path : Path) (force : Bool)
    (spends : R.spends := by exact trivial) :
    Runs R s ((Analysis.load inferTop path force).run s).2 := by
  obtain ⟨same, run, -⟩ := load_does (inferTop_follows R atTop spends) (ready_self sound) path force
  rw [same]
  exact run

theorem runs_apply (sound : s.Sound R) (atTop : s.depth = 0) (id : FunctionId)
    (spends : R.spends := by exact trivial) :
    Runs R s ((Analysis.apply inferTop id (s.defaultSelf id) {}).run s).2 := by
  obtain ⟨same, run, -⟩ := apply_does (inferTop_follows R atTop spends) (ready_self sound) id
    (Sound.defaultSelf id) .none
  rw [same]
  exact run

/-! ## Acts -/

inductive Advance (s : Session) : Session → Prop
  | begin (phase : Phase) (projectDir : Option Path) : Advance s { s with phase, projectDir }
  | prewarm (paths : List Path) : Advance s (s.prewarm paths)
  | load (path : Path) (force : Bool) : Advance s ((Analysis.load inferTop path force).run s).2
  | drain (id : FunctionId) :
      Advance s { ((Analysis.apply inferTop id (s.defaultSelf id) {}).run s).2 with
        exhausted := false, depth := 0 }

inductive Act (s : Session) : Session → Prop
  | advance {t : Session} (step : Advance s t) : Act s t
  | edit (files : FileTree) : Act s { s with files }
  | setStatic (on : Bool) : Act s { s with staticContext := on }
  | clearCache : Act s { s with cache := s.cache.clear }
  | removeFile (path : Path) : Act s (s.removeFile path)
  | reportUnused : Act s s.reportUnused

inductive Advances : Session → Session → Prop
  | refl (s : Session) : Advances s s
  | step {s t u : Session} (before : Advances s t) (last : Advance t u) : Advances s u

theorem Advances.trans {s t u : Session} (first : Advances s t) (second : Advances t u) : Advances s u := by
  induction second with
  | refl => exact first
  | step _ last ih => exact ih.step last

theorem Advances.of_step (step : Advance s t) : Advances s t := (Advances.refl s).step step

theorem advances_foldl {α : Type} {f : Session → α → Session} (each : ∀ s a, Advances s (f s a))
    (xs : List α) (s : Session) :
    Advances s (xs.foldl f s) := by
  induction xs generalizing s with
  | nil => exact .refl s
  | cons x xs ih => exact (each s x).trans (ih _)

theorem advances_loadAll (s : Session) (files : List Path) : Advances s (s.loadAll files) := by
  refine advances_foldl (fun s file => ?_) files s
  split
  · exact .refl s
  · exact .of_step (.load file false)

theorem advances_warmed (s : Session) (on : Bool) (files : List Path) :
    Advances s (if on then s.prewarm files else s) := by
  split
  · exact .of_step (.prewarm files)
  · exact .refl s

theorem advances_analyze {root : Path} (done : s.analyze root = .ok t) : Advances s t := by
  unfold analyze at done
  split at done
  · cases done
  · cases done
    exact (Advances.of_step (.begin ..)).trans ((advances_warmed ..).trans (advances_loadAll ..))

theorem advances_drainRound (s : Session) : Advances s s.drainRound := by
  refine advances_foldl (fun s id => ?_) s.uncalled s
  unfold drainOne
  split
  · exact .of_step (.drain id)
  · exact .refl s

theorem advances_drain {rounds : Nat} (drained : drain? rounds s = some t) : Advances s t := by
  induction rounds generalizing s with
  | zero =>
    unfold drain? at drained
    split at drained
    · cases drained
      exact .refl _
    · cases drained
  | succ rounds ih =>
    unfold drain? at drained
    split at drained
    · cases drained
      exact .refl _
    · exact (advances_drainRound s).trans (ih drained)

/-! ## Operations -/

/-- The sessions that a user can bring about. Files may change at any time between operations. -/
inductive Reachable : Session → Prop
  | new {options : Options} {files : FileTree} {s : Session}
      (made : Session.new options files = .ok s) : Reachable s
  | edit {s : Session} (before : Reachable s) (files : FileTree) : Reachable { s with files }
  | setStatic {s : Session} (before : Reachable s) (on : Bool) : Reachable { s with staticContext := on }
  | clearCache {s : Session} (before : Reachable s) : Reachable { s with cache := s.cache.clear }
  | analyze {s t : Session} (before : Reachable s) {root : Path} (done : s.analyze root = .ok t) : Reachable t
  | loadFile {s : Session} (before : Reachable s) (path : Path) : Reachable (s.loadFile path).2
  | removeFile {s : Session} (before : Reachable s) (path : Path) : Reachable (s.removeFile path)
  | reload {s : Session} (before : Reachable s) (path : Path) : Reachable (s.reload path).2
  | finish {s t : Session} (before : Reachable s) {rounds : Nat} {summary : Summary}
      (ended : finish? rounds s = some (summary, t)) : Reachable t

inductive Passed : Session → Prop
  | new {options : Options} {files : FileTree} {s : Session}
      (made : Session.new options files = .ok s) : Passed s
  | act {s t : Session} (before : Passed s) (step : Act s t) : Passed t

theorem Passed.advances (before : Passed s) (steps : Advances s t) : Passed t := by
  induction steps with
  | refl => exact before
  | step _ last ih => exact ih.act (.advance last)

theorem Reachable.passed {s : Session} (reached : Reachable s) : Passed s := by
  induction reached with
  | new made => exact .new made
  | edit _ files before => exact before.act (.edit files)
  | setStatic _ on before => exact before.act (.setStatic on)
  | clearCache _ before => exact before.act .clearCache
  | analyze _ done before => exact before.advances (advances_analyze done)
  | loadFile _ path before => exact before.act (.advance (.load path false))
  | removeFile _ path before => exact before.act (.removeFile path)
  | reload _ path before => exact (before.act (.removeFile path)).act (.advance (.load path true))
  | @finish s t _ rounds summary ended before =>
    unfold finish? at ended
    obtain ⟨u, drained, rest⟩ := Option.bind_eq_some_iff.mp ended
    cases rest
    have started := before.act (.advance (.begin .fixpoint s.projectDir))
    have reported := (started.advances (advances_drain drained)).act .reportUnused
    exact reported.act (.advance (.begin .done _))

theorem reachable_empty (options : Options) (files : FileTree) (inMemory : options.diskCache = false)
    (content : options.dumper = .ok .content) :
    Reachable { options, files, cache := { dumper := .content } } := by
  refine .new (?_ : Session.new options files = _)
  show options.dumper.bind _ = _
  rw [content]
  exact if_neg (by simp [inMemory])

/-! ## Projects written down -/

def naming (name : String) : String := "\x7b\"type\":\"name\",\"id\":\"" ++ name ++ "\"\x7d"

def assigning (name value : String) : String :=
  "\x7b\"type\":\"assign\",\"target\":" ++ naming name ++ ",\"value\":" ++ value ++ "\x7d"

def callingWith (func word : String) : String :=
  "\x7b\"type\":\"call\",\"func\":" ++ func ++
    ",\"args\":\x7b\"positional\":[\x7b\"type\":\"string\",\"id\":\"" ++ word ++ "\"\x7d]\x7d\x7d"

def requiring (word : String) : String := callingWith (naming "require") word

def defining (name params body : String) : String :=
  "\x7b\"type\":\"def\",\"name\":" ++ naming name ++ ",\"params\":\x7b\"positional\":[" ++ params ++
    "]\x7d,\"body\":" ++ body ++ "\x7d"

def statements (stmts : List String) : String :=
  "\x7b\"type\":\"block\",\"stmts\":[" ++ ",".intercalate stmts ++ "]\x7d"

/-- A new session over files in one folder, given as they are dumped. -/
def project (dumps : List (String × String)) : Session where
  options := { cacheDir := ⟨"cache"⟩, diskCache := false }
  files := { root := .folder (dumps.map fun (name, text) => (name, .file text.toUTF8)) }
  cache := { dumper := .content }

theorem reachable_project (dumps : List (String × String)) : Reachable (project dumps) :=
  reachable_empty _ _ rfl rfl

/-! ## Between operations -/

structure Idle (s : Session) : Prop where
  callStack : s.callStack = []
  importStack : s.importStack.paths = []
  returns : s.returns = []
  depth : s.depth = 0
  active (id : FunctionId) : (s.function id).active = 0
  exhausted : s.exhausted = false

theorem SameGuards.idle (same : SameGuards s t) (idle : s.Idle) : Idle { t with exhausted := false } where
  callStack := same.callStack.trans idle.callStack
  importStack := by
    show t.importStack.paths = []
    rw [same.importStack, idle.importStack]
  returns := List.eq_nil_of_length_eq_zero (by rw [same.returns, idle.returns]; rfl)
  depth := same.depth.trans idle.depth
  active id := (same.active id).trans (idle.active id)
  exhausted := rfl

theorem new_inv (made : Session.new options files = .ok s) :
    ∃ dumper disk files', options.dumper = .ok dumper ∧
      s = { options, files := files', cache := { dumper, disk } } := by
  unfold Session.new at made
  cases chosen : options.dumper with
  | error e =>
    rw [chosen] at made
    cases made
  | ok dumper =>
    rw [chosen] at made
    dsimp only [bind, Except.bind] at made
    split at made
    · cases made
      unfold Cache.withDisk
      split <;> exact ⟨dumper, _, _, rfl, rfl⟩
    · cases made
      exact ⟨dumper, _, _, rfl, rfl⟩

theorem new_eq (made : Session.new options files = .ok s) :
    s = { options := s.options, files := s.files, cache := s.cache } := by
  obtain ⟨_, _, _, -, rfl⟩ := new_inv made
  rfl

theorem new_idle (made : Session.new options files = .ok s) : s.Idle := by
  rw [new_eq made]
  exact ⟨rfl, rfl, rfl, rfl, fun _ => rfl, rfl⟩

theorem Advance.idle (step : Advance s t) (idle : s.Idle) : t.Idle := by
  cases step with
  | begin | prewarm =>
    exact ⟨idle.callStack, idle.importStack, idle.returns, idle.depth, idle.active, idle.exhausted⟩
  | load path force =>
    obtain ⟨same, run, -, settled⟩ :=
      load_does (inferTop_follows .any idle.depth) (ready_self s.sound_any) path force
    rw [same]
    exact { run.guards.idle idle with exhausted := settled idle.exhausted }
  | drain id => exact { (runs_apply s.sound_any idle.depth id).guards.idle idle with depth := rfl }

theorem Passed.idle (passed : Passed s) : s.Idle := by
  induction passed with
  | new made => exact new_idle made
  | act _ step idle =>
    cases step with
    | advance step => exact step.idle idle
    | _ => exact ⟨idle.callStack, idle.importStack, idle.returns, idle.depth, idle.active, idle.exhausted⟩

/-- **Guards are restored on every path.** After a call the same things are under way as before it,
and functions that it has made are not active. On the way no node is visited outside the limits:
passing over the nodes in sessions that fail a test makes no difference, whatever the test, as long
as it holds inside the limits. Hence nothing is under way between operations. -/
theorem guards_restored :
    (∀ (s : Session) (c : Call),
      SameGuards s (s.call c) ∧ (∀ id, s.functions.size ≤ id → ((s.call c).function id).active = 0) ∧
      ∀ (ok : Session → Prop) [DecidablePred ok], (∀ m, Inside s m → ok m) →
        (c.perform (inferIf ok (s.options.maxDepth - s.depth))).run s =
          (c.perform (infer (s.options.maxDepth - s.depth))).run s) ∧
    ∀ s, Reachable s → s.Idle := by
  refine ⟨fun s c => ?_, fun s reached => reached.passed.idle⟩
  have same := (runs_call s.sound_any c (c.fits_any s)).guards
  refine ⟨same, fun id new => ?_, fun ok _ passes => (call_does s.sound_any c (c.fits_any s) ok passes).1⟩
  rw [same.active]
  exact idle_of_size_le new

/-- A method is called that requires a file, and that file is too deep. -/
def overrunning : Session :=
  let s := project [("a.rb", statements [defining "f" "" (requiring "b"), callingWith (naming "f") "x"]),
    ("b.rb", statements [statements [naming "y"]])]
  { s with options := { s.options with maxDepth := 4 } }

/-- The second file is opened inside the call, where the depth runs out, and the guards are as
before. -/
theorem guards_restored_overrun :
    Reachable overrunning ∧ overrunning.Idle ∧
      SameGuards overrunning (overrunning.call (.load ⟨"/a.rb"⟩ false)) ∧
      (overrunning.call (.load ⟨"/a.rb"⟩ false)).loaded.paths = [⟨"/a.rb"⟩] ∧
      (overrunning.call (.load ⟨"/a.rb"⟩ false)).cache.trees.size = 2 ∧
      ((Call.perform (inferIf (fun m => m.callStack.isEmpty = true) 4) (.load ⟨"/a.rb"⟩ false)).run
        overrunning).2.cache.trees.size = 1 ∧
      (Call.perform (inferIf (fun m => m.depth ≤ 4) 4) (.load ⟨"/a.rb"⟩ false)).run overrunning =
        (Call.perform (infer 4) (.load ⟨"/a.rb"⟩ false)).run overrunning := by
  have reached : Reachable overrunning := reachable_empty _ _ rfl rfl
  obtain ⟨same, -, watched⟩ := guards_restored.1 overrunning (.load ⟨"/a.rb"⟩ false)
  obtain ⟨loaded, trees, outside⟩ : (overrunning.call (.load ⟨"/a.rb"⟩ false)).loaded.paths = [⟨"/a.rb"⟩] ∧
      (overrunning.call (.load ⟨"/a.rb"⟩ false)).cache.trees.size = 2 ∧
      ((Call.perform (inferIf (fun m => m.callStack.isEmpty = true) 4) (.load ⟨"/a.rb"⟩ false)).run
        overrunning).2.cache.trees.size = 1 := by
    decide +kernel
  exact ⟨reached, guards_restored.2 _ reached, same, loaded, trees, outside,
    watched _ fun _ inside => inside.depth⟩

theorem new_sound (made : Session.new options files = .ok s) : s.Sound R := by
  rw [new_eq made]
  exact {
    bindings := fun here => by simp at here
    functions := fun here => by simp at here
    classes := fun here => by simp at here
    modules := fun here => by simp at here
    returns := fun mem => nomatch mem
    keys := fun mem => nomatch mem
    global := fun _ => Nat.zero_lt_one }

theorem Advance.sound (step : Advance s t) (atTop : s.depth = 0) (sound : s.Sound R)
    (spends : R.spends := by exact trivial) :
    t.Sound R := by
  cases step with
  | begin | prewarm => exact sound.transfer (Nat.le_refl _) sound.bindings
  | load path force => exact (runs_load sound atTop path force spends).sound sound
  | drain id =>
    have left := (runs_apply sound atTop id spends).sound sound
    exact left.transfer (Nat.le_refl _) left.bindings

theorem Act.sound (step : Act s t) (idle : s.Idle) (sound : s.Sound R)
    (spends : R.spends := by exact trivial) : t.Sound R := by
  cases step with
  | advance step => exact step.sound idle.depth sound spends
  | removeFile path =>
    refine sound.transfer (Nat.le_of_eq (s.scopes.size_purge _).symm) fun {id b} here => ?_
    replace here : (s.registry.removeFile (s.files.settle path)).2.get? id = some b := here
    rw [Registry.get?_removeFile] at here
    obtain ⟨old, there, rfl⟩ := Option.map_eq_some_iff.mp here
    exact (sound.bindings (Option.filter_eq_some_iff.mp there).1 :)
  | edit | setStatic | clearCache | reportUnused => exact sound.transfer (Nat.le_refl _) sound.bindings

theorem Passed.sound (passed : Passed s) (spends : R.spends := by exact trivial) : s.Sound R := by
  induction passed with
  | new made => exact new_sound made
  | act before step sound => exact step.sound before.idle sound spends

end Session

end RubyInfer
