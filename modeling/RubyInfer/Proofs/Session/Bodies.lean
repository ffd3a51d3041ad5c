import RubyInfer.Proofs.Session.Draining

/-!
# Which bodies are entered

A function counts as called before it is settled whether its body is entered. While nothing is too
deep this makes no difference: a call is cut short only where another call of the function is under
way, so its body has been entered. Once a visit finds no levels left, calls are cut short for that
reason alone, and a function that is called for the first time then stays without its body
(`finish_enters`, `finish_skips_body`).
-/

namespace RubyInfer

def Regime.shallow : Regime := ⟨fun _ => True, Ty.true_closed, False, False⟩

namespace Analysis

open Session

variable {R : Regime} {s : Session}

/-! ## Passing over what is too deep -/

def skim : (levels : Nat) → Visit
  | 0, _, _ => return .unknown
  | levels + 1, node, scope => do
    if (← get).exhausted then return .unknown
    modify fun s => { s with depth := s.depth + 1 }
    let ty ← inferNode (skim levels) node scope
    modify fun s => { s with depth := s.depth - 1 }
    return ty

def skimTop : Visit := fun node scope => do skim (← get).options.maxDepth node scope

theorem skim_follows (R : Regime) (start : Session) (levels : Nat) :
    Follows R ⟨start, levels⟩ (skim levels) (skim levels) := by
  induction levels with
  | zero =>
    intro s node scope ready there
    exact .pure R.closed.unknown
  | succ levels ih =>
    intro s node scope ready there
    unfold skim
    refine .get ?_
    split
    · exact .pure R.closed.unknown
    · rename_i going
      obtain ⟨-, run, typed⟩ := inferNode_does ih ready.deeper there node
      exact ⟨rfl, .visit (Bool.eq_false_iff.mpr going) run, typed⟩

theorem skimTop_follows (R : Regime) (atTop : s.depth = 0) :
    Follows R ⟨s, s.options.maxDepth - s.depth⟩ (skim (s.options.maxDepth - s.depth)) skimTop := by
  intro u node scope ready there
  obtain ⟨-, run, typed⟩ := skim_follows R s _ node ready there
  refine ⟨?_, run, typed⟩
  show (skim u.options.maxDepth node scope).run u = _
  rw [ready.options, atTop]
  rfl

end Analysis

namespace Session

open Analysis

variable {R : Regime} {s t : Session} {more : List (Session × Session)}

theorem sound_shallow (s : Session) : s.Sound .shallow := .of_free (fun _ => trivial) id

theorem runs_skim_load (atTop : s.depth = 0) (path : Path) (force : Bool) :
    Runs .shallow s ((Analysis.load skimTop path force).run s).2 := by
  obtain ⟨same, run, -⟩ := load_does (skimTop_follows .shallow atTop) (ready_self s.sound_shallow) path force
  rw [same]
  exact run

theorem runs_skim_apply (atTop : s.depth = 0) (id : FunctionId) :
    Runs .shallow s ((Analysis.apply skimTop id (s.defaultSelf id) {}).run s).2 := by
  obtain ⟨same, run, -⟩ := apply_does (skimTop_follows .shallow atTop) (ready_self s.sound_shallow)
    id (Sound.defaultSelf id) .none
  rw [same]
  exact run

/-! ## Calls under way -/

structure Attended (s : Session) : Prop where
  going : s.exhausted = false
  recursive : 0 < s.options.maxRecursion
  stacked {key : CallKey} : key ∈ s.callStack → s.Entered key.function
  active {id : FunctionId} : 0 < (s.function id).active → s.Entered id
  catalogued : s.Catalogued

theorem Idle.attended (idle : s.Idle) (catalogued : s.Catalogued)
    (recursive : 0 < s.options.maxRecursion) : s.Attended where
  going := idle.exhausted
  recursive := recursive
  stacked mem := by
    rw [idle.callStack] at mem
    cases mem
  active busy := by
    rw [idle.active] at busy
    cases busy
  catalogued := catalogued

theorem Attended.after (attended : s.Attended) (run : Runs R s t) (going : t.exhausted = false) :
    t.Attended where
  going := going
  recursive := run.retains.options ▸ attended.recursive
  stacked mem := run.recorded.entered (attended.stacked (run.guards.callStack ▸ mem))
  active busy := run.recorded.entered (attended.active (run.guards.active _ ▸ busy))
  catalogued := run.catalogued attended.catalogued

theorem Attended.pushCall (attended : s.Attended) {key : CallKey}
    (entered : s.Entered key.function) : (s.pushCall key).Attended := by
  have still {id : FunctionId} : s.Entered id → (s.pushCall key).Entered id :=
    (Change.pushCall (R := .any) key trivial fun _ _ => trivial).recorded.entered
  refine ⟨attended.going, attended.recursive, fun mem => ?_, fun {id} busy => ?_,
    attended.catalogued.pushCall key⟩
  · obtain rfl | older := List.mem_cons.mp mem
    · exact still entered
    · exact still (attended.stacked older)
  · rw [active_pushCall] at busy
    split at busy
    · rename_i here
      exact still (here.1 ▸ entered)
    · exact still (attended.active busy)

theorem Attended.entered_of_due (attended : s.Attended) {id : FunctionId}
    (inRange : id < s.functions.size) (due : s.Due id) :
    s.Entered id := by
  obtain ⟨key, rfl, refused⟩ | entered | other := due
  · have absent : ¬ s.functions.size ≤ key.function := Nat.not_le_of_lt inRange
    simp only [refuses, absent, decide_false, attended.going, Bool.false_or, Bool.or_eq_true,
      decide_eq_true_eq] at refused
    obtain stacked | busy := refused
    · exact attended.stacked (List.contains_iff_mem.mp stacked)
    · exact attended.active (Nat.lt_of_lt_of_le attended.recursive busy)
  · exact entered
  · exact absurd (attended.catalogued.written inRange) other

theorem queueFunction_attends (going : s.exhausted = false) (node : NodeRef) (name : String)
    (env : ScopeId) (owner : Option Owner) (classLevel isLambda : Bool) :
    (s.queueFunction node name env owner classLevel isLambda).exhausted = false ∧
      ∀ id, ((s.queueFunction node name env owner classLevel isLambda).function id).called = true →
        (s.function id).called = true := by
  have waits (u : Session) (j : FunctionId) :
      (u.addUncalled j).exhausted = u.exhausted ∧ (u.addUncalled j).functions = u.functions := by
    unfold addUncalled
    split <;> exact ⟨rfl, rfl⟩
  refine ⟨?_, fun id called => ?_⟩
  · unfold queueFunction
    rw [(waits ..).1]
    unfold functionFor
    split <;> exact going
  · unfold queueFunction at called
    rw [function_of_eq (waits ..).2] at called
    unfold functionFor at called
    split at called
    · exact called
    · simp only [function, Array.getElem?_push] at called
      split at called
      · cases called
      · exact called

/-- **Nothing too deep.** In a run that never exceeds the depth no function counts as called unless
its body is entered. -/
theorem Runs.attends (run : Runs .shallow s t) (attended : s.Attended) :
    t.exhausted = false ∧ ∀ id, (t.function id).called = true → t.Entered id ∨
      (s.function id).called = true := by
  induction run with
  | refl => exact ⟨attended.going, fun id called => .inr called⟩
  | update step plain =>
    refine ⟨Bool.eq_false_iff.mpr fun spent => ?_, fun id called => .inr (plain.called id called)⟩
    exact Bool.eq_false_iff.mp attended.going (plain.exhausted spent)
  | define =>
    obtain ⟨going, earlier⟩ := queueFunction_attends attended.going ..
    exact ⟨going, fun id called => .inr (earlier id called)⟩
  | @markCalled s id due =>
    refine ⟨attended.going, fun j called => ?_⟩
    have marked := s.function_modifyFunction id (fun f => { f with called := true }) j
    by_cases here : id = j ∧ j < s.functions.size
    · obtain ⟨rfl, inRange⟩ := here
      exact .inl ((Update.markCalled (R := .any) id).recorded.entered (attended.entered_of_due inRange due))
    · rw [if_neg here] at marked
      exact .inr ((congrArg FunctionRecord.called marked).symm.trans called)
  | clearFailure => exact ⟨attended.going, fun id called => .inr called⟩
  | exhaust allowed => exact allowed.elim
  | trans first second before after =>
    obtain ⟨going, earlier⟩ := before attended
    obtain ⟨still, later⟩ := after (attended.after first going)
    refine ⟨still, fun id called => ?_⟩
    obtain entered | called := later id called
    · exact .inl entered
    · exact (earlier id called).imp_left second.recorded.entered
  | visit _ _ inside => exact inside { attended with catalogued := attended.catalogued.same List.prefix_rfl }
  | staticBody _ _ inside =>
    exact inside { attended with catalogued := attended.catalogued.same List.prefix_rfl }
  | file _ _ _ inside => exact inside { attended with catalogued := attended.catalogued.same List.prefix_rfl }
  | @call s t key result _ _ _ _ entered _ _ inside =>
    obtain ⟨going, calls⟩ := inside (attended.pushCall entered)
    have popped := (Change.popCall (R := .any) (s := t) key result trivial).recorded
    refine ⟨going, fun id called => ?_⟩
    have inside := (called_modifyFunction (by intro _; rfl) t key.function id).symm.trans called
    refine (calls id inside).imp popped.entered fun was => ?_
    exact (called_modifyFunction (f := fun f => { f with active := f.active + 1 })
      (fun _ => rfl) s key.function id).symm.trans was

/-! ## Acts -/

inductive Exceeds (s : Session) : Session → Prop
  | load (path : Path) (force : Bool)
      (differs : (Analysis.load skimTop path force).run s ≠
      (Analysis.load inferTop path force).run s) :
      Exceeds s ((Analysis.load inferTop path force).run s).2
  | drain (id : FunctionId)
      (differs : (Analysis.apply skimTop id (s.defaultSelf id) {}).run s ≠
        (Analysis.apply inferTop id (s.defaultSelf id) {}).run s) :
      Exceeds s { ((Analysis.apply inferTop id (s.defaultSelf id) {}).run s).2 with
        exhausted := false, depth := 0 }

theorem Act.options (step : Act s t) (idle : s.Idle) : t.options = s.options := by
  cases step with
  | advance step =>
    cases step with
    | begin | prewarm => rfl
    | load path force => exact (runs_load s.sound_any idle.depth path force).retains.options
    | drain id => exact (runs_apply s.sound_any idle.depth id).retains.options
  | edit | setStatic | clearCache | removeFile | reportUnused => rfl

theorem Advances.options (steps : Advances s t) (passed : Passed s) : t.options = s.options := by
  induction steps with
  | refl => rfl
  | step before last ih => exact ((Act.advance last).options (passed.advances before).idle).trans ih

theorem Act.recorded (step : Act s t) (idle : s.Idle) : Recorded s t := by
  have same := Recorded.refl s
  cases step with
  | advance step => exact (step.grows idle).recorded
  | edit | setStatic | clearCache | removeFile | reportUnused => exact { same with }

theorem Act.entered_or_exceeds (step : Act s t) (attended : s.Attended) (idle : s.Idle) {id : FunctionId}
    (new : (s.function id).called = false) (called : (t.function id).called = true) :
    t.Entered id ∨ Exceeds s t := by
  have unchanged : (s.function id).called ≠ true := by simp [new]
  cases step with
  | advance step =>
    cases step with
    | begin | prewarm => exact absurd called unchanged
    | load path force =>
      by_cases same : (Analysis.load skimTop path force).run s = (Analysis.load inferTop path force).run s
      · have run := runs_skim_load idle.depth path force
        rw [same] at run
        exact .inl (((run.attends attended).2 id called).resolve_right unchanged)
      · exact .inr (.load path force same)
    | drain function =>
      by_cases same : (Analysis.apply skimTop function (s.defaultSelf function) {}).run s =
          (Analysis.apply inferTop function (s.defaultSelf function) {}).run s
      · have run := runs_skim_apply idle.depth function
        rw [same] at run
        exact .inl (((run.attends attended).2 id called).resolve_right unchanged)
      · exact .inr (.drain function same)
  | edit | setStatic | clearCache | removeFile | reportUnused => exact absurd called unchanged

/-! ## Functions that can be found -/

def Findable (s : Session) (id : FunctionId) : Prop := ∃ e ∈ s.functionAt, e.2 = id

structure Lists (s t : Session) : Prop where
  kept : s.functionAt ⊆ t.functionAt
  added {id : FunctionId} : id < t.functions.size → id < s.functions.size ∨ t.Findable id

theorem Lists.refl (s : Session) : Lists s s := ⟨List.Subset.refl _, .inl⟩

theorem Lists.trans {u : Session} (first : Lists s t) (second : Lists t u) : Lists s u := by
  refine ⟨List.Subset.trans first.kept second.kept, fun {id} inRange => ?_⟩
  obtain before | new := second.added inRange
  · refine (first.added before).imp_right ?_
    rintro ⟨e, mem, rfl⟩
    exact ⟨e, second.kept mem, rfl⟩
  · exact .inr new

theorem Change.lists (change : Change R s t) : Lists s t := by
  have same := Lists.refl s
  cases change with
  | update step =>
    cases step with
    | newFunction =>
      refine ⟨List.subset_append_left .., fun {id} inRange => ?_⟩
      obtain before | rfl := Nat.lt_or_eq_of_le (Nat.le_of_lt_succ
        (Nat.lt_of_lt_of_eq inRange (Array.size_push _)))
      · exact .inl before
      · exact .inr ⟨_, List.mem_append_right _ (List.mem_singleton_self _), rfl⟩
    | markCalled => exact ⟨same.kept, fun inRange => .inl (Nat.lt_of_lt_of_eq inRange Array.size_modify)⟩
    | newFrame => exact ⟨same.kept, fun inRange => .inl (Nat.lt_of_lt_of_eq inRange Array.size_modify)⟩
    | _ => exact ⟨same.kept, same.added⟩
  | pushCall => exact ⟨same.kept, fun inRange => .inl (Nat.lt_of_lt_of_eq inRange Array.size_modify)⟩
  | popCall => exact ⟨same.kept, fun inRange => .inl (Nat.lt_of_lt_of_eq inRange Array.size_modify)⟩
  | _ => exact ⟨same.kept, same.added⟩

theorem Advance.lists (step : Advance s t) (idle : s.Idle) : Lists s t := by
  have same := Lists.refl s
  cases step with
  | begin | prewarm => exact ⟨same.kept, same.added⟩
  | load path force =>
    exact (runs_load s.sound_any idle.depth path force).lift Lists.refl Lists.trans Change.lists
  | drain id =>
    have run := (runs_apply s.sound_any idle.depth id).lift Lists.refl Lists.trans Change.lists
    exact ⟨run.kept, run.added⟩

/-! ## Histories -/

inductive History : List (Session × Session) → Session → Prop
  | new {options : Options} {files : FileTree} {s : Session}
      (made : Session.new options files = .ok s) : History [] s
  | act {steps : List (Session × Session)} {s t : Session} (before : History steps s)
      (step : Act s t) : History ((s, t) :: steps) t

def Forgotten (steps : List (Session × Session)) (id : FunctionId) : Prop :=
  ∃ s path, (s, s.removeFile path) ∈ steps ∧ id < s.functions.size ∧
    (s.function id).node.file.same (s.files.settle path) = true

def Cut (steps : List (Session × Session)) (id : FunctionId) : Prop :=
  ∃ s t, (s, t) ∈ steps ∧ (s.function id).called = false ∧ (t.function id).called = true ∧
    ¬ t.Entered id ∧ Exceeds s t

variable {steps : List (Session × Session)} {id : FunctionId}

theorem History.passed (history : History steps s) : Passed s := by
  induction history with
  | new made => exact .new made
  | act _ step before => exact before.act step

theorem Passed.history (passed : Passed s) : ∃ steps, History steps s := by
  induction passed with
  | new made => exact ⟨[], .new made⟩
  | act _ step before =>
    obtain ⟨steps, history⟩ := before
    exact ⟨_, history.act step⟩

theorem Act.findable (step : Act s t) (idle : s.Idle) (listed : s.Listed) (inRange : id < t.functions.size)
    (found : id < s.functions.size → s.Findable id) : t.Findable id ∨ Forgotten [(s, t)] id := by
  cases step with
  | advance step =>
    obtain ⟨kept, added⟩ := step.lists idle
    obtain before | new := added inRange
    · obtain ⟨e, mem, rfl⟩ := found before
      exact .inl ⟨e, kept mem, rfl⟩
    · exact .inl new
  | removeFile path =>
    obtain ⟨e, mem, rfl⟩ := found inRange
    cases elsewhere : e.1.file.same (s.files.settle path) with
    | false => exact .inl ⟨e, List.mem_filter.mpr ⟨mem, by simp [elsewhere]⟩, rfl⟩
    | true =>
      refine .inr ⟨s, path, List.mem_singleton_self _, inRange, ?_⟩
      rw [(listed.entry mem).2]
      exact elsewhere
  | edit | setStatic | clearCache | reportUnused => exact .inl (found inRange)

theorem Forgotten.mono (forgotten : Forgotten steps id) (longer : steps ⊆ more) : Forgotten more id := by
  obtain ⟨s, path, mem, rest⟩ := forgotten
  exact ⟨s, path, longer mem, rest⟩

theorem Cut.mono (cut : Cut steps id) (longer : steps ⊆ more) : Cut more id := by
  obtain ⟨s, t, mem, rest⟩ := cut
  exact ⟨s, t, longer mem, rest⟩

/-- Every function is accounted for: it is forgotten, or it can be found, and it does not count as
called without a reason. -/
theorem History.accounts (history : History steps t) (recursive : 0 < t.options.maxRecursion)
    (id : FunctionId) :
    Forgotten steps id ∨
      (id < t.functions.size → t.Findable id) ∧
      ((t.function id).called = true → t.Entered id ∨ Cut steps id) := by
  induction history with
  | new made =>
    rw [new_eq made]
    exact .inr ⟨fun inRange => (nomatch inRange), fun called => (nomatch called)⟩
  | @act steps s t before step ih =>
    have idle := before.passed.idle
    have catalogued := before.passed.catalogued
    rw [step.options idle] at recursive
    have longer : steps ⊆ (s, t) :: steps := List.subset_cons_self ..
    obtain forgotten | ⟨found, reason⟩ := ih recursive
    · exact .inl (forgotten.mono longer)
    · by_cases lost : Forgotten [(s, t)] id
      · exact .inl (lost.mono (by simp))
      refine .inr ⟨fun inRange =>
        (step.findable idle catalogued.toListed inRange found).resolve_right lost, fun called => ?_⟩
      cases was : (s.function id).called with
      | true => exact (reason was).imp (step.recorded idle).entered (Cut.mono · longer)
      | false =>
        by_cases entered : t.Entered id
        · exact .inl entered
        · have exceeds := (step.entered_or_exceeds (idle.attended catalogued recursive) idle was
            called).resolve_left entered
          exact .inr ⟨s, t, List.mem_cons_self, was, called, entered, exceeds⟩

/-- **Which bodies are entered.** At the end of an analysis no function is left to call. Whatever
acts have led there, every function has been called and its body has been entered, unless its file
has been removed since or the function was called for the first time in an act that exceeded the
depth. -/
theorem finish_enters (reached : Reachable s) (recursive : 1 ≤ s.options.maxRecursion)
    {rounds : Nat} {summary : Summary} (ends : finish? rounds s = some (summary, t)) :
    t.uncalled = [] ∧ (∃ steps, History steps t) ∧
      ∀ steps, History steps t → ∀ id < t.functions.size,
        Forgotten steps id ∨ (t.function id).called = true ∧ (t.Entered id ∨ Cut steps id) := by
  obtain ⟨u, drained, same⟩ := Option.map_eq_some_iff.mp (finish?_eq rounds s ▸ ends)
  cases same
  obtain ⟨-, -, emptied⟩ := emptied_of_drain? drained
  have begun := reached.passed.act (.advance (.begin .fixpoint s.projectDir))
  have options : u.ended.options = s.options := (advances_drain drained).options begun
  have passed := (reached.finish ends).passed
  refine ⟨emptied, passed.history, fun steps history id inRange => ?_⟩
  refine (history.accounts (options ▸ recursive) id).imp_right fun ⟨found, reason⟩ => ?_
  obtain ⟨e, mem, rfl⟩ := found inRange
  have called : (u.ended.function e.2).called = true :=
    (passed.catalogued.pending mem).resolve_right fun waits => by
      rw [uncalled_ended, emptied] at waits
      cases waits
  exact ⟨called, reason called⟩

def definedAndCalled : String :=
  "\x7b\"type\":\"block\",\"stmts\":[\x7b\"type\":\"def\",\"name\":\x7b\"type\":\"name\",\"id\":\"f\"\x7d," ++
    "\"params\":\x7b\x7d,\"body\":\x7b\"type\":\"void\"\x7d\x7d," ++
    "\x7b\"type\":\"call\",\"func\":\x7b\"type\":\"name\",\"id\":\"f\"\x7d," ++
    "\"args\":\x7b\"positional\":[\x7b\"type\":\"void\"\x7d]\x7d\x7d]\x7d"

def beforeDefinedAndCalled (maxDepth : Nat) : Session where
  options := { cacheDir := ⟨"cache"⟩, diskCache := false, maxDepth }
  files := { root := .folder [("a.rb", .file definedAndCalled.toUTF8)] }
  cache := { dumper := .content }

theorem finish_definedAndCalled (deep : Bool) :
    ∃ summary t, finish? 0 ((beforeDefinedAndCalled (deep.toNat + 2)).loadFile ⟨"/a.rb"⟩).2 =
      some (summary, t) ∧
      0 < t.functions.size ∧ (t.function 0).called = true ∧ (t.function 0).frame.isSome = deep := by
  have ends : (finish? 0 ((beforeDefinedAndCalled (deep.toNat + 2)).loadFile ⟨"/a.rb"⟩).2).any (fun r =>
      0 < r.2.functions.size ∧ (r.2.function 0).called = true ∧
        (r.2.function 0).frame.isSome = deep) = true := by
    cases deep <;> decide +kernel
  obtain ⟨⟨summary, t⟩, ended, facts⟩ := (Option.any_eq_true ..).mp ends
  exact ⟨summary, t, ended, of_decide_eq_true facts⟩

theorem finish_enters_called :
    ∃ s t summary, Reachable s ∧ 1 ≤ s.options.maxRecursion ∧ finish? 0 s = some (summary, t) ∧
      0 < t.functions.size ∧
      t.Entered 0 ∧ ∀ steps, History steps t → Forgotten steps 0 ∨ (t.function 0).called = true ∧
      (t.Entered 0 ∨ Cut steps 0) := by
  have fresh : Reachable (beforeDefinedAndCalled 3) := reachable_empty _ _ rfl rfl
  have reached := fresh.loadFile ⟨"/a.rb"⟩
  have recursive : 1 ≤ ((beforeDefinedAndCalled 3).loadFile ⟨"/a.rb"⟩).2.options.maxRecursion := by
    unfold loadFile
    rw [(Act.advance (.load (s := beforeDefinedAndCalled 3) ⟨"/a.rb"⟩ false)).options fresh.passed.idle]
    decide
  obtain ⟨summary, t, ended, made, -, entered⟩ := finish_definedAndCalled true
  refine ⟨_, t, summary, reached, recursive, ended, made, entered, fun steps history => ?_⟩
  exact (finish_enters reached recursive ended).2.2 steps history 0 made

/-- The argument is too deep, so the call is cut short; the function counts as called, and its body
is never entered. -/
theorem finish_skips_body :
    Reachable (beforeDefinedAndCalled 2) ∧ 1 ≤ (beforeDefinedAndCalled 2).options.maxRecursion ∧
      1 ≤ (beforeDefinedAndCalled 2).options.maxDepth ∧
      ∃ summary t, finish? 0 ((beforeDefinedAndCalled 2).loadFile ⟨"/a.rb"⟩).2 = some (summary, t) ∧
      0 < t.functions.size ∧
        (t.function 0).called = true ∧ ¬ t.Entered 0 := by
  refine ⟨reachable_empty _ _ rfl rfl, by decide, by decide, ?_⟩
  obtain ⟨summary, t, ended, made, called, skipped⟩ := finish_definedAndCalled false
  refine ⟨summary, t, ended, made, called, fun entered => ?_⟩
  unfold Entered at entered
  rw [skipped] at entered
  cases entered

end Session

end RubyInfer
