import RubyInfer.Proofs.Session.Application

/-!
# Inference is a run

There is one lemma for each kind of definition, call and node. `infer_follows` closes the recursion:
with its room within the budget, inference of any node makes a run and gives a type of the regime.
-/

namespace RubyInfer.Analysis

open Session

variable {R : Regime} {s : Session} {visit other : Visit} {room : Room} {scope : ScopeId}

section

variable (follows : Follows R room visit other) (ready : Ready R room s)
    (there : s.HasScope R scope) (node : NodeRef)
include follows ready there

/-! ## Definitions -/

theorem withStatic_does (on : Bool) (body : Option NodeId) :
    Does R s (withStatic visit on node body scope) (withStatic other on node body scope) R.typed := by
  have turned : Ready R room { s with staticContext := on } :=
    { ready with sound := (Change.staticContext on).sound ready.sound }
  obtain ⟨same, run, typed⟩ := visitOption_does follows node body turned there
  have closed := congrArg (fun r : Ty × Session =>
    (r.1, ({ r.2 with staticContext := s.staticContext } : Session))) same
  exact ⟨closed, .staticBody on run, typed⟩

theorem definitionScope_does (locator : NodeId) :
    Does R s (definitionScope visit node locator scope) (definitionScope other node locator scope)
      (fun outer t => t.HasScope R outer) := by
  unfold definitionScope
  refine .get ?_
  split
  · refine .bind (follows _ ready there) fun outer t run _ => .get ?_
    exact .pure ((ready.after run).sound.memberScope (there.after run) outer)
  · exact .pure there

omit there in
theorem definedBody_does {nameNode : NodeRef} (rooted : s.HasTree R nameNode) (name : String)
    (kind : BindingKind) (body : Option NodeId)
    {outer inner : ScopeId} {ty : Ty} (typed : R.ty ty) (around : s.HasScope R outer)
    (inside : s.HasScope R inner) :
    Does R s
      (do modify (·.bindDefinition outer inner name node nameNode kind ty)
          discard (withStatic visit false node body inner)
          return ty)
      (do modify (·.bindDefinition outer inner name node nameNode kind ty)
          discard (withStatic other false node body inner)
          return ty) R.typed := by
  have bound := runs_bindDefinition around inside typed rooted name node kind
  refine .update bound ?_
  refine .bind (withStatic_does follows (ready.after bound) (inside.after bound) node false body).discard ?_
  exact fun _ _ _ _ => .pure typed

theorem defineModule_does (locator : NodeId) (body : Option NodeId) :
    Does R s (defineModule visit node locator body scope)
      (defineModule other node locator body scope) R.typed := by
  unfold defineModule
  refine .get ?_
  split
  · exact (visitOption_does follows node body ready there).discard.result fun _ => R.closed.nil
  · refine .get ?_
    split
    · exact .pure R.closed.nil
    · rename_i name named
      split
      · exact (withStatic_does follows ready there node true body).discard.result fun _ => R.closed.nil
      · refine .bind (definitionScope_does follows ready there node locator) fun outer t run around => ?_
        have made : Runs R t (t.moduleFor name (t.scopes.qualify outer name) outer).2 :=
          runs_moduleFor _ _ around
        have later := ready.after (run.trans made)
        have rooted : s.HasTree R _ := hasTree_of_name named
        refine .updateGet made (.get ?_)
        exact definedBody_does follows later node (rooted.after (run.trans made)) name .moduleDef body
          (R.closed.moduleObj _) (around.after made) (later.sound.moduleRecord _)

theorem baseClass_does (base : Option NodeId) :
    Does R s (baseClass visit node base scope) (baseClass other node base scope) (fun _ _ => True) := by
  cases base with
  | none => exact .pure trivial
  | some id => exact (follows _ ready there).result fun _ => trivial

theorem defineClass_does (locator : NodeId) (base body : Option NodeId) :
    Does R s (defineClass visit node locator base body scope)
      (defineClass other node locator base body scope) R.typed := by
  unfold defineClass
  refine .bind (baseClass_does follows ready there node base) fun base t based _ => .get ?_
  replace ready := ready.after based
  replace there := there.after based
  split
  · exact (visitOption_does follows node body ready there).discard.result fun _ => R.closed.nil
  · refine .get ?_
    split
    · exact .pure R.closed.nil
    · rename_i name named
      refine .bind (definitionScope_does follows ready there node locator) fun outer u run around => ?_
      have made : Runs R u (u.classFor name (u.scopes.qualify outer name) outer).2 := runs_classFor _ _ around
      have extended : Runs R (u.classFor name (u.scopes.qualify outer name) outer).2 _ :=
        runs_setBase (u.classFor name (u.scopes.qualify outer name) outer).1 base
      have later := ready.after (run.trans (made.trans extended))
      have rooted : t.HasTree R _ := hasTree_of_name named
      refine .updateGet made (.update extended (.get ?_))
      exact definedBody_does follows later node (rooted.after (run.trans (made.trans extended)))
        name .classDef body
        (R.closed.classObj _) (around.after (made.trans extended)) (later.sound.classRecord _).1

theorem methodScope_does (locator : NodeId) :
    Does R s (methodScope visit node locator scope) (methodScope other node locator scope)
      (fun landing t => t.HasScope R landing.1) := by
  unfold methodScope
  refine .get ?_
  split
  · refine .get ?_
    split
    · exact .pure there
    · refine .bind (follows _ ready there) fun receiver t run _ => .get ?_
      exact .pure ((ready.after run).sound.memberScope (there.after run) receiver)
  · exact .pure there

theorem defineFunction_does {node : NodeRef} (written : s.IsFunction node) (locator : Option NodeId)
    (isLambda : Bool) :
    Does R s (defineFunction visit node locator isLambda scope)
      (defineFunction other node locator isLambda scope) R.typed := by
  unfold defineFunction
  split
  · exact .later (.define node "lambda" scope none false true written there) rfl rfl
      (.pure (R.closed.function _))
  · refine .get ?_
    split
    · exact .pure R.closed.unknown
    · refine .get ?_
      split
      · exact .pure R.closed.unknown
      · rename_i name named
        refine .bind (methodScope_does follows ready there node _) fun landing t run lands => ?_
        have rooted : s.HasTree R _ := hasTree_of_name named
        exact .later (runs_nameFunction (written.retained run.retains.trees)
          (rooted.after run) lands _ _ _ _ _ _ _ rfl)
          rfl rfl (.pure (R.closed.function _))

/-! ## Calls -/

theorem visitAll_does (ids : List NodeId) :
    Does R s (visitAll visit node ids scope) (visitAll other node ids scope)
      (fun tys _ => ∀ ty ∈ tys, R.ty ty) :=
  Does.mapM fun _ _ _ run => follows _ (ready.after run) (there.after run)

theorem requireAll_does (args : List NodeId) (force : Bool) :
    Does R s (requireAll visit node args force scope) (requireAll other node args force scope) R.typed := by
  unfold requireAll
  refine .bind (visitAll_does follows ready there node args) fun targets t run _ => ?_
  have each :
      Does R t ((targets.flatMap Ty.stringLiterals).forM (fun name => require visit name force))
        ((targets.flatMap Ty.stringLiterals).forM (fun name => require other name force))
        (fun _ _ => True) :=
    Does.forM fun name _ u later => require_does follows (ready.after (run.trans later)) name force
  exact .bind each fun _ _ _ _ => .pure R.closed.bool

omit follows there in
theorem declareAccessors_does (args : List NodeId) (scope : ScopeId) :
    Does R s (declareAccessors node args scope) (declareAccessors node args scope) R.typed := by
  unfold declareAccessors
  refine .get ?_
  split
  · exact .pure R.closed.nil
  · rename_i c _
    refine .get ?_
    have inside := (ready.sound.classRecord c).2
    refine .result (.forM fun id _ t run => ?_) fun _ => R.closed.nil
    exact .modify (runs_declareAttribute (inside.after run) _) trivial

theorem mixIn_does (args : List NodeId) :
    Does R s (mixIn visit node args scope) (mixIn other node args scope) R.typed := by
  unfold mixIn
  refine .bind (visitAll_does follows ready there node args) fun included t run _ => .get ?_
  split
  · exact .pure R.closed.nil
  · refine .result (.forM fun m _ u _ => ?_) fun _ => R.closed.nil
    exact .modify (runs_addMixin _ m) trivial

theorem specialForm_does (name : String) (args : List NodeId) (block : Option NodeId) :
    Does R s (specialForm visit node name args block scope) (specialForm other node name args block scope)
      (fun found _ => ∀ ty, found = some ty → R.ty ty) := by
  have answer {x y : Analysis Ty} (does : Does R s x y R.typed) :
      Does R s (do return some (← x)) (do return some (← y)) (fun found _ => ∀ ty, found = some ty →
        R.ty ty) :=
    Does.bind does fun _ _ _ typed => .pure fun _ same => Option.some.inj same ▸ typed
  unfold specialForm
  refine .get ?_
  split
  · exact .pure (by simp)
  · split
    · exact .pure (by simp)
    · exact answer (requireAll_does follows ready there node args _)
    · exact answer (declareAccessors_does ready node args scope)
    · exact answer (mixIn_does follows ready there node args)
    · exact .optionMapM fun _ _ => follows _ ready there

theorem visitKeywords_does (ids : List NodeId) :
    Does R s (visitKeywords visit node ids scope) (visitKeywords other node ids scope)
      (fun keywords _ => ∀ e ∈ keywords, R.ty e.2) := by
  refine .mapM fun _ _ _ run => .get ?_
  exact (follows _ (ready.after run) (there.after run)).result fun typed => typed

theorem callArgs_does (args keywords : List NodeId) (star block : Option NodeId) :
    Does R s (callArgs visit node args keywords star block scope)
      (callArgs other node args keywords star block scope) (fun call _ => TypedArgs R call) := by
  unfold callArgs
  refine .bind (visitAll_does follows ready there node args) fun _ t₁ run₁ positional => ?_
  refine .bind (visitKeywords_does follows (ready.after run₁) (there.after run₁) node keywords)
    fun _ t₂ run₂ named => ?_
  replace run₂ := run₁.trans run₂
  refine .bind (.optionMapM fun _ _ => follows _ (ready.after run₂) (there.after run₂))
    fun _ t₃ run₃ splat => ?_
  replace run₃ := run₂.trans run₃
  refine .bind (.optionMapM fun _ _ => follows _ (ready.after run₃) (there.after run₃))
    fun _ t₄ _ passed => ?_
  exact .pure ⟨positional, named, splat, passed⟩

omit follows ready there in
theorem nameOf?_eq_some {node : NodeRef} {id : String} {kind : NameKind}
    (named : s.kind node = .name id kind) : s.nameOf? node = some id := by
  unfold nameOf? Ast.nameId?
  unfold Session.kind at named
  rw [named]

theorem callTarget_does (func : NodeRef) {call : CallArgs} (typed : TypedArgs R call) :
    Does R s (callTarget visit func call scope) (callTarget other func call scope) R.typed := by
  unfold callTarget
  refine .get ?_
  split
  · refine .bind (follows _ ready there) fun receiver t run this => .get ?_
    split
    · exact .pure R.closed.unknown
    · exact callMember_does follows (ready.after run) this _ _ typed
  · rename_i id kind named
    refine .bind (reference_does follows ready (nameOf?_eq_some named) kind scope)
      fun callee t run _ => .get ?_
    exact applyAll_does follows (ready.after run) _ ((ready.after run).sound.selfType scope) typed
  · refine .bind (follows _ ready there) fun callee t run _ => .get ?_
    exact applyAll_does follows (ready.after run) _ ((ready.after run).sound.selfType scope) typed

theorem ordinaryCall_does (node func : NodeRef) (args keywords : List NodeId) (star block : Option NodeId) :
    Does R s (do callTarget visit func (← callArgs visit node args keywords star block scope) scope)
      (do callTarget other func (← callArgs other node args keywords star block scope) scope) R.typed :=
  Does.bind (callArgs_does follows ready there node args keywords star block) fun _ _ run given =>
    callTarget_does follows (ready.after run) (there.after run) _ given

theorem callNode_does (func : NodeId) (args keywords : List NodeId) (star block : Option NodeId) :
    Does R s (callNode visit node func args keywords star block scope)
      (callNode other node func args keywords star block scope) R.typed := by
  unfold callNode
  refine .get ?_
  dsimp only
  split
  · refine .bind (specialForm_does follows ready there node _ args block) fun special t run typed => ?_
    cases special with
    | some ty => exact .pure (typed ty rfl)
    | none =>
      exact ordinaryCall_does follows (ready.after run) (there.after run) node _ args keywords star block
  · exact ordinaryCall_does follows ready there node _ args keywords star block

/-! ## Nodes -/

theorem inferBlock_does (stmts : List NodeId) {last : Ty} (typed : R.ty last) :
    Does R s (inferBlock visit node scope stmts last) (inferBlock other node scope stmts last) R.typed := by
  induction stmts generalizing s last with
  | nil => exact .pure typed
  | cons id stmts ih =>
    exact .bind (follows _ ready there) fun _ _ run typed => ih (ready.after run) (there.after run) typed

omit there in
theorem inferName_does {node : NodeRef} {id : String} {kind : NameKind}
    (named : s.kind node = .name id kind) (scope : ScopeId) :
    Does R s (inferName visit node id kind scope) (inferName other node id kind scope) R.typed := by
  unfold inferName
  refine .bind (reference_does follows ready (nameOf?_eq_some named) kind scope) fun result t run typed => ?_
  obtain ⟨ty, callable⟩ := result
  dsimp only
  split
  · exact .get (applyAll_does follows (ready.after run) ty ((ready.after run).sound.selfType scope) .none)
  · exact .pure typed

theorem inferMember_does (target attr : NodeId) :
    Does R s (inferMember visit node target attr scope) (inferMember other node target attr scope)
      R.typed := by
  unfold inferMember
  refine .bind (follows _ ready there) fun receiver t run this => .get ?_
  split
  · exact .pure R.closed.unknown
  · exact callMember_does follows (ready.after run) this _ _ .none

theorem inferElement_does (id : NodeId) :
    Does R s (inferElement visit node scope id) (inferElement other node scope id) R.typed := by
  unfold inferElement
  refine .bind (follows _ ready there) fun ty t _ typed => .get ?_
  split
  · exact .pure (R.closed.elem typed)
  · exact .pure typed

theorem visitKnown_does (child : Option NodeId) :
    Does R s (visitKnown visit node child scope) (visitKnown other node child scope) R.typed := by
  cases child with
  | none => exact .pure R.closed.unknown
  | some id => exact follows _ ready there

theorem inferGuarded_does (body rescue orelse ensure : Option NodeId) :
    Does R s (inferGuarded visit node body rescue orelse ensure scope)
      (inferGuarded other node body rescue orelse ensure scope)
      R.typed := by
  unfold inferGuarded
  refine .bind (visitOption_does follows node body ready there) fun _ t₁ run₁ main => ?_
  refine .bind (visitKnown_does follows (ready.after run₁) (there.after run₁) node rescue)
    fun _ t₂ run₂ rescued => ?_
  replace run₂ := run₁.trans run₂
  refine .bind (visitKnown_does follows (ready.after run₂) (there.after run₂) node orelse)
    fun _ t₃ run₃ other => ?_
  replace run₃ := run₂.trans run₃
  exact (visitOption_does follows node ensure (ready.after run₃) (there.after run₃)).discard.result fun _ =>
    R.closed.known (by simp [main, rescued, other])

theorem inferHandler_does (exceptions : List NodeId) (binder body orelse : Option NodeId) :
    Does R s (inferHandler visit node exceptions binder body orelse scope)
      (inferHandler other node exceptions binder body orelse scope) R.typed := by
  unfold inferHandler
  refine .bind (visitAll_does follows ready there node exceptions) fun classes t₁ run₁ _ => ?_
  have bound :
      Does R t₁ (binder.forM fun id => bindTarget visit (node.sibling id) (.caught classes) .variable scope)
        (binder.forM fun id => bindTarget other (node.sibling id) (.caught classes) .variable scope)
      (fun _ _ => True) :=
    Does.optionForM fun id _ =>
      bindTarget_does follows _ (R.closed.caught classes) .variable (ready.after run₁) (there.after run₁)
  refine .bind bound fun _ t₂ run₂ _ => ?_
  replace run₂ := run₁.trans run₂
  refine .bind (visitOption_does follows node body (ready.after run₂) (there.after run₂))
    fun _ t₃ run₃ main => ?_
  replace run₃ := run₂.trans run₃
  exact (visitKnown_does follows (ready.after run₃) (there.after run₃) node orelse).result
    fun other => R.closed.known (by simp [main, other])

theorem yieldArgs_does (value : Option NodeId) :
    Does R s (yieldArgs visit node value scope) (yieldArgs other node value scope)
      (fun tys _ => ∀ ty ∈ tys, R.ty ty) := by
  unfold yieldArgs
  split
  · exact .pure (by simp)
  · refine .get ?_
    split
    · exact visitAll_does follows ready there node _
    · exact (follows _ ready there).result fun typed => by simpa using typed

theorem inferNode_does : Does R s (inferNode visit node scope) (inferNode other node scope) R.typed := by
  unfold inferNode
  refine .get ?_
  cases meaning : s.kind node with
  | block stmts => exact inferBlock_does follows ready there node stmts R.closed.nil
  | moduleDef locator body _ => exact defineModule_does follows ready there node locator body
  | classDef locator base body isStatic _ =>
    dsimp only
    split
    · exact (withStatic_does follows ready there node true body).discard.result fun _ => R.closed.nil
    · exact defineClass_does follows ready there node locator base body
  | function locator _ _ isLambda _ =>
    exact defineFunction_does follows ready there ⟨_, _, _, _, _, meaning⟩ locator isLambda
  | call func args keywords star block =>
    exact callNode_does follows ready there node func args keywords star block
  | member target attr => exact inferMember_does follows ready there node target attr
  | binary op left right =>
    refine .bind (follows _ ready there) fun l t run typedLeft => ?_
    refine .bind (follows _ (ready.after run) (there.after run)) fun r _ _ typedRight => ?_
    exact .pure (R.closed.binary typedLeft typedRight)
  | unary op operand => exact (follows _ ready there).result fun typed => R.closed.unary typed
  | assign target value =>
    refine .bind (follows _ ready there) fun ty t run typed => ?_
    exact (bindTarget_does follows _ typed .variable (ready.after run) (there.after run)).result
      fun _ => typed
  | name id kind => exact inferName_does follows ready meaning scope
  | symbol id => exact .pure (R.closed.symbol _)
  | str value => exact .pure (R.closed.str _)
  | strEmbed value =>
    exact (visitOption_does follows node value ready there).discard.result fun _ => R.closed.str _
  | regexp pattern stop =>
    refine .bind (visitOption_does follows node pattern ready there).discard fun _ t run _ => ?_
    exact (visitOption_does follows node stop (ready.after run) (there.after run)).discard.result
      fun _ => R.closed.unknown
  | int _ => exact .pure R.closed.num
  | float _ => exact .pure R.closed.num
  | array elts =>
    have each :
        Does R s (elts.mapM (inferElement visit node scope)) (elts.mapM (inferElement other node scope))
          (fun tys _ => ∀ ty ∈ tys, R.ty ty) :=
      Does.mapM fun id _ t run => inferElement_does follows (ready.after run) (there.after run) node id
    exact .bind each fun _ _ _ typed => .pure (R.closed.ofElements typed)
  | dict keys values =>
    refine .bind (visitAll_does follows ready there node keys) fun _ t run typedKeys => ?_
    exact (visitAll_does follows (ready.after run) (there.after run) node values).result fun typedValues =>
      R.closed.dict (R.closed.makeUnion typedKeys) (R.closed.makeUnion typedValues)
  | starred value => exact follows _ ready there
  | keyword _ value => exact visitOption_does follows node value ready there
  | branch test body orelse =>
    refine .bind (follows _ ready there).discard fun _ t₁ run₁ _ => ?_
    refine .bind (visitOption_does follows node body (ready.after run₁) (there.after run₁))
      fun _ t₂ run₂ yes => ?_
    replace run₂ := run₁.trans run₂
    exact (visitOption_does follows node orelse (ready.after run₂) (there.after run₂)).result
      fun no => R.closed.either yes no
  | loop test body =>
    refine .bind (follows _ ready there).discard fun _ t run _ => ?_
    exact (visitOption_does follows node body (ready.after run) (there.after run)).discard.result
      fun _ => R.closed.nil
  | each target iter body =>
    refine .bind (follows _ ready there) fun ty t₁ run₁ typed => ?_
    refine .bind (bindTarget_does follows _ (R.closed.iterated typed) .variable (ready.after run₁)
      (there.after run₁)) fun _ t₂ run₂ _ => ?_
    replace run₂ := run₁.trans run₂
    exact (visitOption_does follows node body (ready.after run₂) (there.after run₂)).discard.result
      fun _ => typed
  | guarded body rescue orelse ensure =>
    exact inferGuarded_does follows ready there node body rescue orelse ensure
  | handler exceptions binder body orelse =>
    exact inferHandler_does follows ready there node exceptions binder body orelse
  | ret value =>
    refine .bind (visitOption_does follows node value ready there) fun _ _ _ typed => ?_
    exact .update (runs_addReturn typed) (.pure typed)
  | yield value =>
    exact .bind (yieldArgs_does follows ready there node value) fun _ _ run typed =>
      applyBlock_does follows (ready.after run) scope typed
  | subscript value part =>
    refine .bind (follows _ ready there) fun _ t run typed => ?_
    refine .bind (visitOption_does follows node part (ready.after run) (there.after run)).discard
      fun _ _ _ _ => ?_
    exact .get (.pure (R.closed.subscripted typed _))
  | index value => exact follows _ ready there
  | slice lower upper =>
    refine .bind (visitOption_does follows node lower ready there).discard fun _ t run _ => ?_
    exact (visitOption_does follows node upper (ready.after run) (there.after run)).discard.result
      fun _ => R.closed.unknown
  | control _ => exact .pure R.closed.nil
  | undef _ => exact .pure R.closed.nil
  | void => exact .pure R.closed.nil

end

def inside (visit : Visit) (node : NodeRef) (scope : ScopeId) (s : Session) : Ty × Session :=
  let result := (inferNode visit node scope).run { s with depth := s.depth + 1 }
  (result.1, { result.2 with depth := result.2.depth - 1 })

theorem infer_run_succ (levels : Nat) (node : NodeRef) (scope : ScopeId) (s : Session) :
    (infer (levels + 1) node scope).run s = if s.exhausted then (.unknown, s) else
      inside (infer levels) node scope s := by
  unfold infer
  rw [run_get]
  split <;> rfl

theorem infer_run_of {node : NodeRef} (s : Session) (levels : Nat) {ty : Ty} {u : Session}
    (going : s.exhausted = false)
    (does : (inferNode (infer levels) node scope).run { s with depth := s.depth + 1 } = (ty, u)) :
    (infer (levels + 1) node scope).run s = (ty, { u with depth := u.depth - 1 }) := by
  rw [infer_run_succ, going, if_neg Bool.false_ne_true]
  unfold inside
  rw [does]

def inferNodeIf (ok : Session → Prop) [DecidablePred ok] (visit : Visit) : Visit := fun node scope => do
  if ok (← get) then inferNode visit node scope else return .unknown

def inferIf (ok : Session → Prop) [DecidablePred ok] : (levels : Nat) → Visit
  | 0, node, scope => infer 0 node scope
  | levels + 1, node, scope => do
    if (← get).exhausted then return .unknown
    modify fun s => { s with depth := s.depth + 1 }
    let ty ← inferNodeIf ok (inferIf ok levels) node scope
    modify fun s => { s with depth := s.depth - 1 }
    return ty

theorem inferNodeIf_does {ok : Session → Prop} [DecidablePred ok]
    (follows : Follows R room visit other) (passed : ok s) (node : NodeRef)
    (ready : Ready R room s) (there : s.HasScope R scope) :
    Does R s (inferNode visit node scope) (inferNodeIf ok other node scope) R.typed := by
  obtain ⟨same, rest⟩ := inferNode_does follows ready there node
  refine ⟨Eq.trans ?_ same, rest⟩
  show (if ok s then inferNode other node scope else pure .unknown : Analysis Ty).run s = _
  rw [if_pos passed]

/-- What a call from `start` may rely on inside a node: the depth is within the options, and no
function is active more often than they give, or than it was at the start. -/
structure Inside (start s : Session) : Prop where
  depth : s.depth ≤ start.options.maxDepth
  active (id : FunctionId) : (s.function id).active ≤
      max (start.function id).active start.options.maxRecursion

/-- Inference makes runs, and no node is visited outside the limits: with a test that holds inside
them nothing changes. A visit takes one of the levels that are left to it, and its depth takes one
of those that the options give. -/
theorem infer_follows (R : Regime) (start : Session) (ok : Session → Prop) [DecidablePred ok]
    (passes : ∀ s, Inside start s → ok s)
    (spends : R.spends) (levels : Nat) : Follows R ⟨start, levels⟩ (infer levels) (inferIf ok levels) := by
  induction levels with
  | zero =>
    intro s node scope ready there
    exact .update (.exhaust spends) (.pure R.closed.unknown)
  | succ levels ih =>
    intro s node scope ready there
    unfold infer inferIf
    refine .get ?_
    split
    · exact .pure R.closed.unknown
    · rename_i going
      have room : levels + 1 = s.options.maxDepth - s.depth := ready.levels
      have passed : ok { s with depth := s.depth + 1 } := by
        refine passes _ ⟨?_, ?_⟩
        · rw [← ready.options]
          show s.depth + 1 ≤ s.options.maxDepth
          omega
        · rw [← ready.options]
          exact ready.active
      obtain ⟨same, run, typed⟩ := inferNodeIf_does ih passed node ready.deeper there
      have closed := congrArg (fun r : Ty × Session =>
        (r.1, ({ r.2 with depth := r.2.depth - 1 } : Session))) same
      exact ⟨closed, .visit (Bool.eq_false_iff.mpr going) run, typed⟩

end RubyInfer.Analysis
