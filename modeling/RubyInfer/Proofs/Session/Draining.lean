import Mathlib.Data.Finset.Card
import Mathlib.Data.List.Perm.Subperm
import Mathlib.Logic.Function.Iterate
import RubyInfer.Proofs.Cache.Work
import RubyInfer.Proofs.Session.Catalogue

/-!
# Draining

Every round of draining calls a function that was not called before, and there are no more functions
than there are nodes to make them of. So the end of an analysis is reached exactly when finitely
many trees are read on the way (`finish_ends_iff`). A body that requires its own file can make the
trees go on without end, if the file is given up each time.
-/

namespace RubyInfer.Session

open Analysis

variable {R : Regime} {s t u : Session} {scope : ScopeId} {node : NodeRef} {visit : Visit} {levels : Nat}

/-! ## Functions and nodes -/

def places (trees : Array Ast) : List (Nat × NodeId) :=
  (List.range trees.size).flatMap fun n => (List.range (trees[n]?.getD default).size).map (n, ·)

theorem IsFunction.mem_places (written : s.IsFunction node) :
    (node.tree, node.id) ∈ places s.cache.trees := by
  obtain ⟨locator, params, body, isLambda, doc, defined⟩ := written
  have inTree : node.id < (s.tree node).size := by
    by_contra absent
    unfold kind Ast.kind at defined
    rw [Array.getElem?_eq_none (Nat.le_of_not_lt absent)] at defined
    cases defined
  have there : node.tree < s.cache.trees.size := lt_size_of_kind (by simp [defined])
  refine List.mem_flatMap.mpr ⟨node.tree, List.mem_range.mpr there, ?_⟩
  exact List.mem_map_of_mem (List.mem_range.mpr inTree)

theorem Listed.length_le (listed : s.Listed) : s.functionAt.length ≤ (places s.cache.trees).length := by
  have distinct : (s.functionAt.map fun e => (e.1.tree, e.1.id)).Nodup := by
    rw [List.Nodup, List.pairwise_map]
    refine listed.distinct.imp fun {a b} differ same => differ ?_
    simpa using same
  have inside : (s.functionAt.map fun e => (e.1.tree, e.1.id)) ⊆ places s.cache.trees := by
    intro place mem
    obtain ⟨e, listedThere, rfl⟩ := List.mem_map.mp mem
    obtain ⟨inRange, node⟩ := listed.entry listedThere
    exact (node ▸ listed.written inRange).mem_places
  simpa using (List.subperm_of_subset distinct inside).length_le

/-! ## Growth -/

structure Grows (s t : Session) : Prop where
  recorded : Recorded s t
  trees : s.cache.trees.toList <+: t.cache.trees.toList
  counted : t.functions.size + s.functionAt.length = s.functions.size + t.functionAt.length

theorem Grows.refl (s : Session) : Grows s s := ⟨.refl s, List.prefix_rfl, rfl⟩

theorem Grows.trans (first : Grows s t) (second : Grows t u) : Grows s u := by
  refine ⟨first.recorded.trans second.recorded, first.trees.trans second.trees, ?_⟩
  have := first.counted
  have := second.counted
  omega

theorem Runs.counted (run : Runs R s t) :
    t.functions.size + s.functionAt.length = s.functions.size + t.functionAt.length := by
  induction run with
  | refl => rfl
  | update step plain => rw [plain.size step, plain.functionAt]
  | @define s node name env owner classLevel isLambda =>
    have waits (u : Session) (id : FunctionId) :
        (u.addUncalled id).functions = u.functions ∧ (u.addUncalled id).functionAt = u.functionAt := by
      unfold addUncalled
      split <;> exact ⟨rfl, rfl⟩
    unfold queueFunction
    rw [(waits ..).1, (waits ..).2]
    unfold functionFor
    split
    · rfl
    · simp only [Array.size_push, List.length_append, List.length_singleton]
      omega
  | markCalled id => exact congrArg (· + _) Array.size_modify
  | clearFailure | exhaust => rfl
  | trans _ _ first second => omega
  | visit _ _ inside => exact inside
  | staticBody _ _ inside => exact inside
  | file _ _ _ inside => exact inside
  | @call s t key result _ _ _ _ _ _ _ inside =>
    have pushed : (s.pushCall key).functions.size = s.functions.size := Array.size_modify
    have popped : (t.popCall key result).2.functions.size = t.functions.size := Array.size_modify
    rw [pushed] at inside
    rw [popped]
    exact inside

theorem Runs.grows (run : Runs R s t) : Grows s t := ⟨run.recorded, run.retains.trees, run.counted⟩

theorem Advance.grows (step : Advance s t) (idle : s.Idle) : Grows s t := by
  have same := Grows.refl s
  cases step with
  | begin => exact ⟨{ same.recorded with }, same.trees, same.counted⟩
  | prewarm paths => exact ⟨{ same.recorded with }, s.cache.prefix_trees_prewarm paths s.files, same.counted⟩
  | load path force => exact (runs_load s.sound_any idle.depth path force).grows
  | drain id =>
    have run := (runs_apply s.sound_any idle.depth id).grows
    exact ⟨{ run.recorded with }, run.trees, run.counted⟩

theorem Advances.grows (steps : Advances s t) (passed : Passed s) : Grows s t := by
  induction steps with
  | refl => exact .refl s
  | step before last ih => exact ih.trans (last.grows (passed.advances before).idle)

/-! ## Rounds -/

def reached (s : Session) : Finset FunctionId := (Finset.range s.functions.size).filter fun id =>
  (s.function id).called = true

theorem Recorded.reached_subset (recorded : Recorded s t) : s.reached ⊆ t.reached := by
  intro id mem
  simp only [reached, Finset.mem_filter, Finset.mem_range] at mem ⊢
  exact ⟨Nat.lt_of_lt_of_le mem.1 recorded.size, recorded.called mem.2⟩

theorem card_reached_le (s : Session) : s.reached.card ≤ s.functions.size := by
  have all := Finset.card_filter_le (Finset.range s.functions.size) fun id => (s.function id).called = true
  rwa [Finset.card_range] at all

theorem called_drainOne (passed : Passed s) {id : FunctionId} (waits : id ∈ s.uncalled) :
    ((s.drainOne id).function id).called = true := by
  have idle := passed.idle
  obtain ⟨same, -, -, called⟩ :=
    apply_calls (inferTop_follows .any idle.depth) (ready_self s.sound_any) id
    (Sound.defaultSelf id) .none
  unfold drainOne
  rw [if_pos (List.contains_iff_mem.mpr waits)]
  show ((((apply inferTop id (s.defaultSelf id) {}).run s).2).function id).called = true
  rw [same]
  exact called (passed.catalogued.waiting waits).1

theorem advances_drainOne (s : Session) (id : FunctionId) : Advances s (s.drainOne id) := by
  unfold drainOne
  split
  · exact .of_step (.drain id)
  · exact .refl s

theorem reached_ssubset_drainRound (passed : Passed s) (pending : s.uncalled ≠ []) :
    s.reached ⊂ s.drainRound.reached := by
  obtain ⟨id, rest, waiting⟩ := List.exists_cons_of_ne_nil pending
  have waits : id ∈ s.uncalled := waiting ▸ List.mem_cons_self
  obtain ⟨inRange, untouched⟩ := passed.catalogued.waiting waits
  have first := advances_drainOne s id
  have others : Advances (s.drainOne id) s.drainRound := by
    unfold drainRound
    rw [waiting, List.foldl_cons]
    exact advances_foldl advances_drainOne rest _
  have whole := ((first.trans others).grows passed).recorded
  rw [Finset.ssubset_iff_of_subset whole.reached_subset]
  refine ⟨id, ?_, ?_⟩
  · simp only [reached, Finset.mem_filter, Finset.mem_range]
    refine ⟨Nat.lt_of_lt_of_le inRange whole.size, ?_⟩
    exact (others.grows (passed.advances first)).recorded.called (called_drainOne passed waits)
  · simp [reached, untouched]

theorem advances_rounds (s : Session) (k : Nat) : Advances s (drainRound^[k] s) := by
  induction k with
  | zero => exact .refl s
  | succ k ih =>
    rw [Function.iterate_succ_apply']
    exact ih.trans (advances_drainRound _)

theorem trees_rounds_le (passed : Passed s) {j k : Nat} (earlier : j ≤ k) :
    (drainRound^[j] s).cache.trees.size ≤ (drainRound^[k] s).cache.trees.size := by
  obtain ⟨i, rfl⟩ := Nat.exists_eq_add_of_le' earlier
  rw [Function.iterate_add_apply]
  have grown := (advances_rounds (drainRound^[j] s) i).grows (passed.advances (advances_rounds s j))
  simpa using grown.trees.length_le

theorem le_card_reached (passed : Passed s) (pending : ∀ k, (drainRound^[k] s).uncalled ≠ []) (k : Nat) :
    k ≤ (drainRound^[k] s).reached.card := by
  induction k with
  | zero => exact Nat.zero_le _
  | succ k ih =>
    rw [Function.iterate_succ_apply']
    exact Nat.lt_of_le_of_lt ih
      (Finset.card_lt_card (reached_ssubset_drainRound (passed.advances (advances_rounds s k)) (pending k)))

theorem functions_size_le (passed : Passed s) (steps : Advances s t)
    (settled : t.cache.trees.size ≤ s.cache.trees.size) :
    t.functions.size ≤ s.functions.size + (places s.cache.trees).length := by
  have grown := steps.grows passed
  have trees : t.cache.trees = s.cache.trees := by
    have same := grown.trees.eq_of_length_le (by simpa using settled)
    exact Array.toList_inj.mp same.symm
  have found := (passed.advances steps).catalogued.toListed.length_le
  rw [trees] at found
  have := grown.counted
  omega

theorem exists_emptied (passed : Passed s)
    (settled : ∀ k, (drainRound^[k] s).cache.trees.size ≤ s.cache.trees.size) :
    ∃ k, (drainRound^[k] s).uncalled = [] := by
  by_contra pending
  rw [not_exists] at pending
  let most := s.functions.size + (places s.cache.trees).length
  have many := le_card_reached passed pending (most + 1)
  have bounded : (drainRound^[most + 1] s).functions.size ≤ most :=
    functions_size_le passed (advances_rounds s _) (settled _)
  have few := card_reached_le (drainRound^[most + 1] s)
  omega

theorem exists_max_of_le {f : Nat → Nat} {bound : Nat} (bounded : ∀ k, f k ≤ bound) :
    ∃ k, ∀ j, f j ≤ f k := by
  induction bound with
  | zero => exact ⟨0, fun j => Nat.le_trans (bounded j) (Nat.zero_le _)⟩
  | succ bound ih =>
    by_cases attained : ∃ k, f k = bound + 1
    · obtain ⟨k, full⟩ := attained
      exact ⟨k, fun j => full ▸ bounded j⟩
    · rw [not_exists] at attained
      exact ih fun k => Nat.le_of_lt_succ (Nat.lt_of_le_of_ne (bounded k) (attained k))

theorem drainRound_of_emptied (emptied : s.uncalled = []) : s.drainRound = s := by
  unfold drainRound
  rw [emptied]
  rfl

theorem drain?_of_emptied {k more : Nat} (emptied : (drainRound^[k] s).uncalled = []) (enough : k ≤ more) :
    drain? more s = some (drainRound^[k] s) := by
  induction k generalizing s more with
  | zero =>
    have empty : s.uncalled.isEmpty = true := List.isEmpty_iff.mpr emptied
    cases more <;> simp [drain?, empty]
  | succ k ih =>
    cases empty : s.uncalled.isEmpty with
    | true =>
      have fixed := Function.iterate_fixed (drainRound_of_emptied (List.isEmpty_iff.mp empty)) (k + 1)
      rw [fixed]
      cases more <;> simp [drain?, empty]
    | false =>
      obtain ⟨more, rfl⟩ := Nat.exists_eq_add_of_le' (Nat.le_trans (Nat.succ_le_succ (Nat.zero_le k)) enough)
      rw [Function.iterate_succ_apply] at emptied ⊢
      show (if s.uncalled.isEmpty then some s else drain? more s.drainRound) = _
      rw [empty, if_neg Bool.false_ne_true]
      exact ih emptied (Nat.le_of_succ_le_succ enough)

theorem emptied_of_drain? {rounds : Nat} (drained : drain? rounds s = some t) :
    ∃ k, t = drainRound^[k] s ∧ t.uncalled = [] := by
  induction rounds generalizing s with
  | zero =>
    unfold drain? at drained
    split at drained
    · rename_i empty
      cases drained
      exact ⟨0, rfl, List.isEmpty_iff.mp empty⟩
    · cases drained
  | succ rounds ih =>
    unfold drain? at drained
    split at drained
    · rename_i empty
      cases drained
      exact ⟨0, rfl, List.isEmpty_iff.mp empty⟩
    · obtain ⟨k, rfl, empty⟩ := ih drained
      exact ⟨k + 1, rfl, empty⟩

def ended (s : Session) : Session := { s.reportUnused with phase := .done }

theorem uncalled_ended (s : Session) : s.ended.uncalled = s.uncalled := by
  unfold ended reportUnused
  rfl

theorem finish?_eq (rounds : Nat) (s : Session) :
    finish? rounds s = (drain? rounds { s with phase := .fixpoint }).map fun t =>
      (t.ended.summary, t.ended) := by
  unfold finish?
  cases drain? rounds { s with phase := .fixpoint } <;> rfl

theorem ends_of_emptied {k : Nat} (emptied : (drainRound^[k] { s with phase := .fixpoint }).uncalled = []) :
    ∃ rounds result, result.2.uncalled = [] ∧ ∀ more, rounds ≤ more → finish? more s = some result := by
  let last : Session := drainRound^[k] { s with phase := .fixpoint }
  refine ⟨k, (last.ended.summary, last.ended), last.uncalled_ended.trans emptied, fun more enough => ?_⟩
  rw [finish?_eq, drain?_of_emptied emptied enough]
  rfl

/-- **The end of an analysis.** It is reached, with no function left to call, exactly when finitely
many trees are read on the way. -/
theorem finish_ends_iff (reached : Reachable s) :
    (∃ rounds result, result.2.uncalled = [] ∧ ∀ more, rounds ≤ more → finish? more s = some result) ↔
      ∃ bound, ∀ k, (drainRound^[k] { s with phase := .fixpoint }).cache.trees.size ≤ bound := by
  have passed : Passed { s with phase := .fixpoint } :=
    reached.passed.act (.advance (.begin .fixpoint s.projectDir))
  constructor
  · rintro ⟨rounds, result, -, ends⟩
    have last := ends rounds (Nat.le_refl _)
    rw [finish?_eq] at last
    obtain ⟨t, drained, -⟩ := Option.map_eq_some_iff.mp last
    obtain ⟨k, rfl, emptied⟩ := emptied_of_drain? drained
    refine ⟨(drainRound^[k] { s with phase := .fixpoint }).cache.trees.size, fun j => ?_⟩
    obtain earlier | later := Nat.le_total j k
    · exact trees_rounds_le passed earlier
    · obtain ⟨i, rfl⟩ := Nat.exists_eq_add_of_le' later
      rw [Function.iterate_add_apply, Function.iterate_fixed (drainRound_of_emptied emptied)]
  · rintro ⟨bound, bounded⟩
    -- After the round with the most trees no tree is read any more.
    obtain ⟨k, most⟩ := exists_max_of_le bounded
    obtain ⟨i, emptied⟩ := exists_emptied (passed.advances (advances_rounds _ k)) fun i => by
      rw [← Function.iterate_add_apply]
      exact most _
    rw [← Function.iterate_add_apply] at emptied
    exact ends_of_emptied emptied

def selfRequiring : String :=
  "\x7b\"type\":\"block\",\"stmts\":[\x7b\"type\":\"lambda\"," ++
    "\"params\":\x7b\x7d,\"body\":\x7b\"type\":\"call\",\"func\":\x7b\"type\":\"name\",\"id\":\"require\"\x7d," ++
    "\"args\":\x7b\"positional\":[\x7b\"type\":\"string\",\"id\":\"/a\"\x7d]\x7d\x7d\x7d," ++
    "\x7b\"type\":\"star\",\"value\":\x7b\"type\":\"star\",\"value\":\x7b\"type\":\"void\"\x7d\x7d\x7d]\x7d"

def beforeSelfRequiring (maxDepth : Nat) : Session where
  options := { cacheDir := ⟨"cache"⟩, diskCache := false, maxDepth }
  files := { root := .folder [("a.rb", .file selfRequiring.toUTF8)] }
  cache := { dumper := .content }

/-- Where the depth does not run out, the file counts as loaded when its block requires it, and no
other tree is read. -/
theorem finish_ends_iff_deep :
    Reachable ((beforeSelfRequiring 4).loadFile ⟨"/a.rb"⟩).2 ∧
      ((beforeSelfRequiring 4).loadFile ⟨"/a.rb"⟩).2.uncalled = [0] ∧
      ∃ bound, ∀ k,
        (drainRound^[k] { ((beforeSelfRequiring 4).loadFile ⟨"/a.rb"⟩).2 with phase :=
          .fixpoint }).cache.trees.size ≤ bound := by
  have fresh : Reachable (beforeSelfRequiring 4) := reachable_empty _ _ rfl rfl
  refine ⟨fresh.loadFile _, by decide +kernel, (finish_ends_iff (fresh.loadFile _)).mp ?_⟩
  exact ends_of_emptied (k := 1) (by decide +kernel)

/-! ### A file that never ends -/

structure SelfRequiring (a : Ast) : Prop where
  root : a.root = 7
  size : a.size = 8
  block : a.kind 7 = .block [3, 6]
  lambda : a.kind 3 = .function none {} (some 2) true none
  call : a.kind 2 = .call 0 [1] [] none none
  callee : a.kind 0 = .name "require" .plain
  name : a.kind 1 = .str "/a"
  star : a.kind 6 = .starred 5
  nested : a.kind 5 = .starred 4

set_option maxRecDepth 10000 in
theorem exists_read :
    ∃ a, Dumper.read? ⟨"/a.rb"⟩ selfRequiring.toUTF8 selfRequiring.toUTF8 = some a ∧ SelfRequiring a := by
  have good : (Dumper.read? ⟨"/a.rb"⟩ selfRequiring.toUTF8 selfRequiring.toUTF8).any
      (fun a => decide (a.root = 7 ∧
      a.size = 8 ∧ a.kind 7 = .block [3, 6] ∧ a.kind 3 = .function none {} (some 2) true none ∧
      a.kind 2 = .call 0 [1] [] none none ∧ a.kind 0 = .name "require" .plain ∧
      a.kind 1 = .str "/a" ∧ a.kind 6 = .starred 5 ∧
      a.kind 5 = .starred 4)) := by
    rfl
  obtain ⟨a, read, facts⟩ := (Option.any_eq_true ..).mp good
  obtain ⟨root, size, block, lambda, call, callee, name, star, nested⟩ := of_decide_eq_true facts
  exact ⟨a, read, ⟨root, size, block, lambda, call, callee, name, star, nested⟩⟩

variable {a : Ast}

theorem inferNode_str {text : String} (written : s.kind node = .str text) :
    (inferNode visit node scope).run s = (.str (some text), s) := by
  unfold inferNode
  rw [run_get, written]
  rfl

def newBlock (s : Session) (node : NodeRef) (scope : ScopeId) : FunctionRecord where
  node
  name := "lambda"
  qname := s.scopes.qualify scope "lambda"
  env := scope
  owner := none
  classLevel := false
  isLambda := true

def withBlock (s : Session) (node : NodeRef) (scope : ScopeId) : Session :=
  { s with
    functions := s.functions.push (s.newBlock node scope)
    functionAt := s.functionAt ++ [(node, s.functions.size)]
    uncalled := [s.functions.size] }

theorem inferNode_lambda {params : Params NodeId} {body : Option NodeId} {doc : Option String}
    (written : s.kind node = .function none params body true doc) (new : s.functionOf? node = none)
    (called : s.uncalled = []) :
    (inferNode visit node scope).run s = (.function s.functions.size, s.withBlock node scope) := by
  have made :
      functionFor s node "lambda" scope none false true =
        (s.functions.size, { s.withBlock node scope with uncalled := [] }) := by
    unfold functionFor
    rw [new, withBlock, ← called]
    rfl
  have untouched : (function { s.withBlock node scope with uncalled := [] }
    s.functions.size).called = false := by
    rw [function_size_of_push (s := s) rfl]
    rfl
  have waits : addUncalled { s.withBlock node scope with uncalled := [] } s.functions.size =
    s.withBlock node scope := by
    unfold addUncalled
    rw [untouched, if_neg (by simp)]
    rfl
  unfold inferNode
  rw [run_get, written]
  unfold defineFunction
  dsimp only
  rw [run_modifyGet, run_modify, made, waits]
  rfl

theorem inferNode_stars (s : Session) {value inner : NodeId} (written : s.kind node = .starred value)
    (nested : s.kind (node.sibling value) = .starred inner) (going : s.exhausted = false) (few : levels ≤ 1) :
    (inferNode (infer levels) node scope).run s = (.unknown, { s with exhausted := true }) := by
  unfold inferNode
  rw [run_get, written]
  match levels, few with
  | 0, _ => rfl
  | 1, _ =>
    refine @infer_run_of _ _ s 0 .unknown { s with depth := s.depth + 1, exhausted := true } going ?_
    unfold inferNode
    rw [run_get, show kind { s with depth := s.depth + 1 } (node.sibling value) = _ from nested]
    rfl

theorem inferNode_root (s : Session) {tree : Nat} (shape : SelfRequiring a)
    (held : s.cache.trees[tree]? = some a)
    (going : s.exhausted = false) (new : s.functionOf? ⟨tree, a.file, 3⟩ = none)
    (called : s.uncalled = []) (few : levels ≤ 1) :
    (inferNode (infer (levels + 1)) ⟨tree, a.file, a.root⟩ Scopes.global).run s =
      (.unknown, { s.withBlock ⟨tree, a.file, 3⟩ Scopes.global with exhausted := true }) := by
  have lambda : (infer (levels + 1) ⟨tree, a.file, 3⟩ Scopes.global).run s = _ := infer_run_of s levels going
    (inferNode_lambda ((kind_of_tree held a.file 3).trans shape.lambda) new called)
  let made := s.withBlock ⟨tree, a.file, 3⟩ Scopes.global
  have stars : (infer (levels + 1) ⟨tree, a.file, 6⟩ Scopes.global).run made = _ :=
    infer_run_of made levels going
    (inferNode_stars { made with depth := s.depth + 1 } ((kind_of_tree held a.file 6).trans shape.star)
      ((kind_of_tree held a.file 5).trans shape.nested) going few)
  unfold inferNode
  rw [run_get, shape.root, kind_of_tree held, shape.block]
  dsimp only
  unfold inferBlock
  refine (run_bind lambda _).trans ?_
  unfold inferBlock
  exact (run_bind stars _).trans rfl

structure Open (a : Ast) (s : Session) : Prop where
  read : Dumper.read? ⟨"/a.rb"⟩ selfRequiring.toUTF8 selfRequiring.toUTF8 = some a
  shape : SelfRequiring a
  options : s.options = (beforeSelfRequiring 3).options
  files : s.files = (beforeSelfRequiring 3).files
  dumper : s.cache.dumper = .content
  disk : s.cache.disk = none
  memory : s.cache.memory = {}
  loaded : s.loaded = {}
  bare (scope : ScopeId) (name : String) (tier : Tier) : s.scopes.local? scope name tier = none
  going : s.exhausted = false
  importStack : s.importStack = {}
  found : ∀ e ∈ s.functionAt, e.1.tree < s.cache.trees.size
  called : s.uncalled = []

def withTree (s : Session) (a : Ast) : Session :=
  { s with cache := ({ s.cache with parses := s.cache.parses + 1 }.addTree ⟨"/a.rb"⟩ a).2 }

theorem fetch_run (ready : s.Open a) : s.fetch ⟨"/a.rb"⟩ = (some s.cache.trees.size, s.withTree a) := by
  have source : s.files.read ⟨"/a.rb"⟩ = .ok selfRequiring.toUTF8 := by
    rw [ready.files]
    rfl
  have new : s.cache.memory.get? ⟨"/a.rb"⟩ = none := by
    rw [ready.memory]
    rfl
  unfold fetch
  rw [Cache.get_content ready.dumper ready.disk new source ready.read]
  rfl

def reread (s : Session) (a : Ast) : Session :=
  { (s.withTree a).withBlock ⟨s.cache.trees.size, a.file, 3⟩ Scopes.global with
    cache := (s.withTree a).cache.clear
    failed := s.failed.erase ⟨"/a.rb"⟩
    importStack := (s.importStack.insert ⟨"/a.rb"⟩).erase ⟨"/a.rb"⟩
    exhausted := false }

theorem load_run (ready : s.Open a) (few : levels ≤ 1)
    (infers : ∀ u : Session, u.options = s.options → ∀ node scope,
      (visit node scope).run u = (infer (levels + 2) node scope).run u) :
    (load visit ⟨"/a.rb"⟩ false).run s = (none, s.reread a) := by
  have settled : s.files.settle ⟨"/a.rb"⟩ = ⟨"/a.rb"⟩ := by
    rw [ready.files]
    rfl
  have small : ¬ s.options.maxNodes < a.size := by
    rw [ready.options, ready.shape.size]
    decide
  have last : (s.withTree a).cache.trees[s.cache.trees.size]? = some a := by
    simp [withTree, Cache.addTree, Cache.remember]
  unfold load
  rw [run_get, run_get, settled, if_neg (by rw [ready.importStack]; exact Bool.false_ne_true), run_get,
    if_neg (by rw [ready.loaded]; exact Bool.false_ne_true), run_modifyGet, fetch_run ready]
  dsimp only
  rw [run_get, last]
  dsimp only [Option.getD_some]
  rw [if_neg (by exact small)]
  have new : functionOf? { s.withTree a with depth := s.depth + 1 }
    ⟨s.cache.trees.size, a.file, 3⟩ = none := by
    refine Option.map_eq_none_iff.mpr (List.find?_eq_none.mpr fun e mem => ?_)
    have older := ready.found e mem
    simp only [decide_eq_true_eq]
    omega
  let opened := openFile { s.withTree a with failed := s.failed.erase ⟨"/a.rb"⟩ } ⟨"/a.rb"⟩
  have root : (infer (levels + 2) ⟨s.cache.trees.size, a.file, a.root⟩ Scopes.global).run opened = _ :=
    infer_run_of opened (levels + 1) ready.going
      (inferNode_root { opened with depth := s.depth + 1 } ready.shape last ready.going new
      ready.called few)
  rw [loadTree_run last ((infers opened rfl ..).trans root) rfl]
  rfl

theorem require_run (ready : s.Open a) : (require (infer 2) "/a" false).run s = ((), s.reread a) := by
  have required : s.findRequired? (s.requiredPath "/a") = some ⟨"/a.rb"⟩ := by
    have suffixed : s.requiredPath "/a" = ⟨"/a.rb"⟩ := by
      unfold requiredPath
      rw [ready.options]
      rfl
    unfold findRequired?
    rw [suffixed, ready.files, if_pos (by decide)]
    rfl
  unfold require
  rw [run_get, required]
  exact congrArg (fun r : Option Ty × Session => ((), r.2))
    (load_run ready (Nat.zero_le 1) fun _ _ _ _ => rfl)

theorem inferNode_call {tree : Nat} {file : Path} (ready : s.Open a) (held : s.cache.trees[tree]? = some a) :
    (inferNode (infer 2) ⟨tree, file, 2⟩ scope).run s = (.bool, s.reread a) := by
  have named := (kind_of_tree held file 0).trans ready.shape.callee
  have unbound : s.lookupName? scope "require" = none := by
    unfold lookupName? Scopes.lookup?
    simp [ready.bare]
  have argument : (infer 2 ⟨tree, file, 1⟩ scope).run s = _ := infer_run_of s 1 ready.going
    (inferNode_str ((kind_of_tree held file 1).trans ready.shape.name))
  have arguments : (visitAll (infer 2) ⟨tree, file, 2⟩ [1] scope).run s = ([.str (some "/a")], s) := by
    unfold visitAll
    rw [List.mapM_cons]
    exact run_bind argument _
  have special : (specialForm (infer 2) ⟨tree, file, 2⟩ "require" [1] none scope).run s =
      (some .bool, s.reread a) := by
    unfold specialForm
    rw [run_get, unbound]
    refine (run_bind (a := .bool) (u := s.reread a) ?_ _).trans rfl
    unfold requireAll
    refine (run_bind arguments _).trans ?_
    exact (run_bind (require_run ready) _).trans rfl
  unfold inferNode
  rw [run_get, kind_of_tree held, ready.shape.call]
  dsimp only
  unfold callNode
  rw [run_get, show s.kind (NodeRef.sibling ⟨tree, file, 2⟩ 0) = _ from named]
  exact (run_bind special _).trans rfl

theorem enterBody_run {f : FunctionRecord} (isLambda : f.isLambda = true) (locator : Option NodeId)
    {body : NodeId} {key : CallKey} {receiver : Ty} {frame : ScopeId} {ty : Ty} {u : Session}
    (does : (visit (f.node.sibling body) frame).run (s.pushCall key) = (ty, u)) :
    (enterBody visit f locator {} (some body) key receiver {} frame).run s = u.popCall key ty := by
  unfold enterBody
  rw [isLambda]
  exact congrArg (fun r : Ty × Session => r.2.popCall key r.1) does

structure Looping (a : Ast) (s : Session) (id : FunctionId) (tree : Nat) : Prop where
  read : Dumper.read? ⟨"/a.rb"⟩ selfRequiring.toUTF8 selfRequiring.toUTF8 = some a
  shape : SelfRequiring a
  options : s.options = (beforeSelfRequiring 3).options
  files : s.files = (beforeSelfRequiring 3).files
  dumper : s.cache.dumper = .content
  disk : s.cache.disk = none
  memory : s.cache.memory = {}
  loaded : s.loaded = {}
  bare (scope : ScopeId) (name : String) (tier : Tier) : s.scopes.local? scope name tier = none
  waits : s.uncalled = [id]
  held : s.cache.trees[tree]? = some a
  node : (s.function id).node = ⟨tree, a.file, 3⟩
  isLambda : (s.function id).isLambda = true
  frame : (s.function id).frame = none

theorem Open.looping (ready : s.Open a) : Looping a (s.reread a) s.functions.size s.cache.trees.size := by
  have last : (s.reread a).function s.functions.size =
      s.newBlock ⟨s.cache.trees.size, a.file, 3⟩ Scopes.global :=
    function_size_of_push rfl
  exact {
    ready with
    memory := rfl
    waits := rfl
    held := by
      show (s.cache.trees.push a)[s.cache.trees.size]? = some a
      simp
    node := congrArg FunctionRecord.node last
    isLambda := congrArg FunctionRecord.isLambda last
    frame := congrArg FunctionRecord.frame last }

theorem Looping.popCall {id : FunctionId} {tree depth : Nat} {key : CallKey} {body : Ty}
    (looping : Looping a s id tree) (other : key.function ≠ id) :
    Looping a { (Session.popCall { s with depth } key body).2 with exhausted := false, depth := 0 }
      id tree := by
  have same := @function_popCall_of_ne { s with depth } key body id other
  exact {
    looping with
    node := (congrArg FunctionRecord.node same).trans looping.node
    isLambda := (congrArg FunctionRecord.isLambda same).trans looping.isLambda
    frame := (congrArg FunctionRecord.frame same).trans looping.frame }

def withFrame (s : Session) (id : FunctionId) : Session :=
  modifyFunction { s with scopes :=
    (s.scopes.push .block (some (s.function id).env) (s.function id).qname).2 } id
    (fun f => { f with frame := some s.scopes.size })

def inBody (s : Session) (id : FunctionId) : Session :=
  ((s.withFrame id).markCalled id).pushCall (callKey id (s.defaultSelf id) {})

variable {id : FunctionId} {tree : Nat}

theorem Looping.enterFrame (looping : Looping a s id tree) :
    s.enterFrame id = (s.scopes.size, s.withFrame id) := by
  unfold Session.enterFrame
  dsimp only
  rw [looping.frame, looping.isLambda]
  rfl

theorem Looping.opened (looping : Looping a s id tree) (passed : Passed s) :
    Open a { s.inBody id with depth := s.depth + 1 } where
  read := looping.read
  shape := looping.shape
  options := looping.options
  files := looping.files
  dumper := looping.dumper
  disk := looping.disk
  memory := looping.memory
  loaded := looping.loaded
  bare scope name tier := by
    show ((s.scopes.push .block _ _).2.get scope).local? name tier = none
    rw [Scopes.get_push]
    split
    · rfl
    · exact looping.bare scope name tier
  going := passed.idle.exhausted
  importStack := congrArg PathSet.mk passed.idle.importStack
  found e mem := passed.catalogued.toListed.tree_lt (e := e) mem
  called := by
    show s.uncalled.filter (· ≠ id) = []
    simp [looping.waits]

def afterBody (s : Session) (id : FunctionId) (a : Ast) : Session :=
  reread { s.inBody id with depth := s.depth + 1 } a

def afterRound (s : Session) (id : FunctionId) (a : Ast) : Session :=
  { (popCall { s.afterBody id a with depth := s.depth } (callKey id (s.defaultSelf id) {}) .bool).2 with
    exhausted := false, depth := 0 }

theorem drainOne_run (looping : Looping a s id tree) (passed : Passed s) :
    s.drainOne id = s.afterRound id a := by
  have idle := passed.idle
  have waits : id ∈ s.uncalled := looping.waits ▸ List.mem_singleton_self id
  have inRange := (passed.catalogued.waiting waits).1
  have allowed : s.refuses (callKey id (s.defaultSelf id) {}) = false := by
    have bounded : ¬ s.options.maxRecursion ≤ 0 := by
      rw [looping.options]
      decide
    simp [refuses, callKey, inRange, idle.exhausted, idle.callStack, idle.active id, bounded]
  have defined : s.kind (s.function id).node = .function none {} (some 2) true none := by
    rw [looping.node, kind_of_tree looping.held]
    exact looping.shape.lambda
  have isLambda : ((s.markCalled id).function id).isLambda = true := by
    refine (congrArg FunctionRecord.isLambda
      (s.function_modifyFunction id (fun f => { f with called := true }) id)).trans ?_
    split <;> exact looping.isLambda
  have body : (inferTop (((s.markCalled id).function id).node.sibling 2) s.scopes.size).run (s.inBody id) =
      (.bool, { s.afterBody id a with depth := s.depth }) := by
    unfold inferTop
    rw [run_get, node_markCalled, looping.node, show (s.inBody id).options = _ from looping.options]
    exact infer_run_of (s.inBody id) 2 idle.exhausted (inferNode_call (looping.opened passed) looping.held)
  unfold drainOne
  rw [if_pos (List.contains_iff_mem.mpr waits), apply_run_entered inferTop allowed defined,
    looping.enterFrame,
    enterBody_run isLambda none body]
  rfl

theorem Looping.next (looping : Looping a s id tree) (passed : Passed s) :
    ∃ id tree, Looping a s.drainRound id tree := by
  have round : s.drainRound = s.drainOne id := by
    unfold drainRound
    rw [looping.waits]
    rfl
  have size : (s.inBody id).functions.size = s.functions.size := by
    simp [inBody, pushCall, markCalled, withFrame, modifyFunction]
  have inRange : id < (s.inBody id).functions.size :=
    size ▸ (passed.catalogued.waiting (looping.waits ▸ List.mem_singleton_self id)).1
  rw [round, drainOne_run looping passed]
  -- The block that is made is not the one that is called.
  exact ⟨_, _, (looping.opened passed).looping.popCall (Nat.ne_of_lt inRange)⟩

theorem Looping.endless (looping : Looping a s id tree) (passed : Passed s) (rounds : Nat) :
    drain? rounds s = none := by
  induction rounds generalizing s id tree with
  | zero => simp [drain?, looping.waits]
  | succ rounds ih =>
    unfold drain?
    rw [looping.waits]
    obtain ⟨next, latest, looping⟩ := looping.next passed
    exact ih looping (passed.advances (advances_drainRound s))

theorem Looping.finish?_eq_none (looping : Looping a s id tree) (reached : Reachable s)
    (rounds : Nat) : finish? rounds s = none := by
  have begun : Looping a { s with phase := .fixpoint } id tree := { looping with }
  rw [finish?_eq, begun.endless (reached.passed.act (.advance (.begin .fixpoint s.projectDir))) rounds]
  rfl

theorem open_beforeSelfRequiring
    (read : Dumper.read? ⟨"/a.rb"⟩ selfRequiring.toUTF8 selfRequiring.toUTF8 = some a)
    (shape : SelfRequiring a) : Open a (beforeSelfRequiring 3) where
  read := read
  shape := shape
  options := rfl
  files := rfl
  dumper := rfl
  disk := rfl
  memory := rfl
  loaded := rfl
  bare scope _ _ := by cases scope <;> rfl
  going := rfl
  importStack := rfl
  found _ mem := absurd mem List.not_mem_nil
  called := rfl

/-- A file whose block requires it again, and which exceeds the depth each time, keeps an analysis
from ending. -/
theorem finish_never_ends : ∃ s, Reachable s ∧ ∀ rounds, finish? rounds s = none := by
  obtain ⟨a, read, shape⟩ := exists_read
  have ready := open_beforeSelfRequiring read shape
  have loaded : (beforeSelfRequiring 3).loadFile ⟨"/a.rb"⟩ = (none, (beforeSelfRequiring 3).reread a) :=
    load_run ready (Nat.le_refl 1) fun u same node scope => by
      unfold inferTop
      rw [run_get, same]
      rfl
  have fresh : Reachable (beforeSelfRequiring 3) := reachable_empty _ _ rfl rfl
  have reached := fresh.loadFile ⟨"/a.rb"⟩
  rw [loaded] at reached
  exact ⟨_, reached, ready.looping.finish?_eq_none reached⟩

end RubyInfer.Session
