import RubyInfer.Proofs.Session.Does

/-!
# Applications make runs

Between the test that lets a call pass and the entry into the body the parameters are bound, and
their default values may call anything. `entered_does` shows that what was tested still holds at the
entry, so the bracket of an application is well formed.
-/

namespace RubyInfer.Analysis

open Session

variable {R : Regime} {s : Session} {visit other : Visit} {room : Room} {call : CallArgs}
    {receiver : Ty} {frame : ScopeId}
  {locator : Option NodeId} {params : Params NodeId}

/-! ## Arguments and parameters -/

structure TypedArgs (R : Regime) (call : CallArgs) : Prop where
  positional : ∀ ty ∈ call.positional, R.ty ty
  keywords : ∀ e ∈ call.keywords, R.ty e.2
  star : ∀ ty, call.star = some ty → R.ty ty
  block : ∀ ty, call.block = some ty → R.ty ty

theorem TypedArgs.none : TypedArgs R {} := ⟨by simp, by simp, by simp, by simp⟩

theorem TypedArgs.key (typed : TypedArgs R call) (id : FunctionId) (this : R.ty receiver) :
    R.ty (callKey id receiver call).receiver ∧ ∀ ty ∈ (callKey id receiver call).args, R.ty ty := by
  refine ⟨R.closed.shape this, fun ty mem => ?_⟩
  obtain ⟨given, inside, rfl⟩ := List.mem_map.mp mem
  exact R.closed.shape (typed.positional given inside)

structure TypedSupply (R : Regime) (supply : Supply) : Prop where
  args : ∀ ty ∈ supply.args, R.ty ty
  keywords : ∀ e ∈ supply.keywords, R.ty e.2

theorem takeKeyword?_typed {name : String} {keywords rest : List (String × Ty)} {ty : Ty}
    (typed : ∀ e ∈ keywords, R.ty e.2)
    (taken : takeKeyword? name keywords = some (ty, rest)) : R.ty ty ∧ ∀ e ∈ rest, R.ty e.2 := by
  induction keywords generalizing rest with
  | nil => simp [takeKeyword?] at taken
  | cons e keywords ih =>
    obtain ⟨first, others⟩ := List.forall_mem_cons.mp typed
    unfold takeKeyword? at taken
    split at taken
    · cases taken
      exact ⟨first, others⟩
    · obtain ⟨⟨found, left⟩, inner, same⟩ := Option.map_eq_some_iff.mp taken
      cases same
      obtain ⟨typedFound, typedLeft⟩ := ih others inner
      exact ⟨typedFound, List.forall_mem_cons.mpr ⟨first, typedLeft⟩⟩

theorem TypedSupply.next {supply : Supply} (typed : TypedSupply R supply) (name : Option String) :
    (∀ ty, (supply.next name).1 = some ty → R.ty ty) ∧ TypedSupply R (supply.next name).2 := by
  unfold Supply.next
  split
  · rename_i ty rest args
    have given : ∀ t ∈ ty :: rest, R.ty t := args ▸ typed.args
    obtain ⟨first, others⟩ := List.forall_mem_cons.mp given
    exact ⟨fun _ same => Option.some.inj same ▸ first, others, typed.keywords⟩
  · split
    · rename_i ty keywords taken
      obtain ⟨text, -, found⟩ := Option.bind_eq_some_iff.mp taken
      obtain ⟨typedFound, left⟩ := takeKeyword?_typed typed.keywords found
      exact ⟨fun _ same => Option.some.inj same ▸ typedFound, typed.args, left⟩
    · exact ⟨by simp, typed⟩

theorem bindParam_does (follows : Follows R room visit other) (param : NodeRef) {ty : Ty}
    (typed : R.ty ty) (ready : Ready R room s) (there : s.HasScope R frame) :
    Does R s (bindParam visit param ty frame) (bindParam other param ty frame) (fun _ _ => True) := by
  unfold bindParam
  refine .get ?_
  split
  · rename_i named
    have rooted : s.HasTree R param := hasTree_of_kind fun empty => by simp [empty] at named
    exact .modify (runs_bind there typed rooted ..) trivial
  · exact bindTarget_does follows param typed .parameter ready there

theorem bindPositional_does (follows : Follows R room visit other) (node : NodeRef)
    (params : List (NodeId × Option NodeId))
    {supply : Supply} (typed : TypedSupply R supply) (ready : Ready R room s) (there : s.HasScope R frame) :
    Does R s (bindPositional visit node frame params supply) (bindPositional other node frame params supply)
      (fun rest _ => TypedSupply R rest) := by
  induction params generalizing s supply with
  | nil => exact .pure typed
  | cons param params ih =>
    obtain ⟨id, default⟩ := param
    unfold bindPositional
    refine .get ?_
    obtain ⟨given, rest⟩ := typed.next (s.nameOf? (node.sibling id))
    have goOn {t : Session} {ty : Ty} (run : Runs R s t) (typedDefault : R.ty ty) :
        Does R t
          (do bindParam visit (node.sibling id) ((supply.next (s.nameOf? (node.sibling id))).1.getD ty) frame
              bindPositional visit node frame params (supply.next (s.nameOf? (node.sibling id))).2)
          (do bindParam other (node.sibling id) ((supply.next (s.nameOf? (node.sibling id))).1.getD ty) frame
              bindPositional other node frame params (supply.next (s.nameOf? (node.sibling id))).2)
          (fun rest _ => TypedSupply R rest) := by
      have delivered : R.ty ((supply.next (s.nameOf? (node.sibling id))).1.getD ty) := by
        cases found : (supply.next (s.nameOf? (node.sibling id))).1 with
        | none => exact typedDefault
        | some argument => exact given argument found
      refine .bind (bindParam_does follows _ delivered (ready.after run) (there.after run))
        fun _ u later _ => ?_
      have whole := run.trans later
      exact ih rest (ready.after whole) (there.after whole)
    cases default with
    | none => exact goOn (.refl s) R.closed.unknown
    | some d => exact .bind (follows _ ready there) fun ty t run typedDefault => goOn run typedDefault

theorem bindEach_does (follows : Follows R room visit other) (node : NodeRef) (ids : List NodeId)
    {args : List Ty}
    (typed : ∀ ty ∈ args, R.ty ty) (ready : Ready R room s) (there : s.HasScope R frame) :
    Does R s (bindEach visit node frame ids args) (bindEach other node frame ids args) (fun _ _ => True) := by
  induction ids generalizing s args with
  | nil => exact .pure trivial
  | cons id ids ih =>
    unfold bindEach
    have first : R.ty (args.headD .unknown) := by
      cases args with
      | nil => exact R.closed.unknown
      | cons ty rest => exact typed ty List.mem_cons_self
    refine .bind (bindParam_does follows _ first ready there) fun _ t run _ => ?_
    exact ih (fun ty mem => typed ty (List.mem_of_mem_tail mem)) (ready.after run) (there.after run)

theorem restList_typed {extra : List Ty} {star : Option Ty} (given : ∀ ty ∈ extra, R.ty ty)
    (splat : ∀ ty, star = some ty → R.ty ty) : R.ty (restList extra star) := by
  apply R.closed.listOf
  apply R.closed.makeUnion
  intro ty mem
  obtain left | spread := List.mem_append.mp mem
  · exact given ty left
  · split at spread
    · obtain rfl := List.mem_singleton.mp spread
      exact R.closed.elem (splat _ rfl)
    · simp at spread

theorem bindParams_does (follows : Follows R room visit other) {node : NodeRef}
    (rooted : s.HasTree R node) (params : Params NodeId)
    (typed : TypedArgs R call) (ready : Ready R room s) (there : s.HasScope R frame) :
    Does R s (bindParams visit node params call frame) (bindParams other node params call frame)
      (fun _ _ => True) := by
  unfold bindParams
  refine .bind (bindPositional_does follows node _ ⟨typed.positional, typed.keywords⟩ ready there)
    fun supply t₁ run₁ left => ?_
  refine .bind (bindEach_does follows node _ (fun ty mem => left.args ty (List.mem_of_mem_drop mem))
    (ready.after run₁) (there.after run₁)) fun _ t₂ run₂ _ => ?_
  replace run₂ := run₁.trans run₂
  refine .bind (.optionForM fun id _ => bindParam_does follows _
    (restList_typed (fun ty mem => left.args ty (List.mem_of_mem_take mem)) typed.star) (ready.after run₂)
    (there.after run₂)) fun _ t₃ run₃ _ => ?_
  replace run₃ := run₂.trans run₃
  have keywords : R.ty (.dict (.symbol none) (.makeUnion (supply.keywords.map Prod.snd))) := by
    refine R.closed.dict (R.closed.symbol none) (R.closed.makeUnion fun ty mem => ?_)
    obtain ⟨e, inside, rfl⟩ := List.mem_map.mp mem
    exact left.keywords e inside
  refine .bind (.optionForM fun id _ => bindParam_does follows _ keywords (ready.after run₃)
    (there.after run₃)) fun _ t₄ run₄ _ => ?_
  replace run₄ := run₃.trans run₄
  have block : R.ty (call.block.getD .unknown) := by
    cases given : call.block with
    | none => exact R.closed.unknown
    | some ty => exact typed.block ty given
  refine .bind (.optionForM fun id _ => bindParam_does follows _ block (ready.after run₄)
    (there.after run₄)) fun _ t₅ run₅ _ => ?_
  replace run₅ := run₄.trans run₅
  exact .optionForM fun ty given =>
    Does.modify (runs_bind (there.after run₅) (typed.block ty given) (rooted.after run₅) ..) trivial

theorem visitOption_does (follows : Follows R room visit other) (node : NodeRef)
    (child : Option NodeId) {scope : ScopeId}
    (ready : Ready R room s) (there : s.HasScope R scope) :
    Does R s (visitOption visit node child scope) (visitOption other node child scope) R.typed := by
  cases child with
  | none => exact .pure R.closed.nil
  | some id => exact follows _ ready there

/-! ## Bodies -/

theorem body_does (follows : Follows R room visit other) (ready : Ready R room s) (node : NodeRef)
    (body : Option NodeId)
    (there : s.HasScope R frame) {key : CallKey} (typedKey : R.ty key.receiver ∧ ∀ ty ∈ key.args, R.ty ty)
    (fresh : s.callStack.contains key = false) (bounded : (s.function key.function).active <
      s.options.maxRecursion)
    (framed : s.Entered key.function) :
    Does R s
      (do modify (·.pushCall key)
          let ty ← visitOption visit node body frame
          modifyGet (·.popCall key ty))
      (do modify (·.pushCall key)
          let ty ← visitOption other node body frame
          modifyGet (·.popCall key ty)) R.typed := by
  obtain ⟨receiver, args⟩ := typedKey
  have entered : Ready R room (s.pushCall key) := by
    refine { ready with
      sound := (Change.pushCall key receiver args).sound ready.sound, active := fun id => ?_ }
    rw [active_pushCall]
    split
    · rename_i here
      rw [← here.1]
      exact Nat.le_trans bounded (Nat.le_max_right ..)
    · exact ready.active id
  obtain ⟨same, run, typed⟩ := visitOption_does follows node body entered there
  have left := run.sound entered.sound
  exact ⟨congrArg (fun r : Ty × Session => r.2.popCall key r.1) same,
    .call key _ fresh bounded receiver args framed run typed,
    R.closed.join typed left.returned⟩

theorem refuses_eq_false {key : CallKey} (allowed : s.refuses key = false) : key.function < s.functions.size ∧
    s.callStack.contains key = false ∧ (s.function key.function).active < s.options.maxRecursion := by
  simp only [refuses, Bool.or_eq_false_iff, decide_eq_false_iff_not, Nat.not_le] at allowed
  exact ⟨allowed.1.1.1, allowed.1.2, allowed.2⟩

theorem hasTree_selfNode {node : NodeRef} (rooted : s.HasTree R node) (locator : Option NodeId) :
    s.HasTree R (s.selfNode node locator) := by
  unfold selfNode
  split <;> exact rooted

def enterBody (visit : Visit) (f : FunctionRecord) (locator : Option NodeId)
    (params : Params NodeId) (body : Option NodeId)
    (key : CallKey) (receiver : Ty) (call : CallArgs) (frame : ScopeId) : Analysis Ty := do
  if !f.isLambda then
    modify fun s => (s.bind frame .object selfName (s.selfNode f.node locator)
      (s.span f.node) .scope receiver).2
  bindParams visit f.node params call frame
  modify (·.pushCall key)
  let ty ← visitOption visit f.node body frame
  modifyGet (·.popCall key ty)

theorem entered_does (follows : Follows R room visit other) (ready : Ready R room s)
    {f : FunctionRecord} (rooted : s.HasTree R f.node)
    (locator : Option NodeId) (params : Params NodeId) (body : Option NodeId)
    (there : s.HasScope R frame) {key : CallKey}
    (typedKey : R.ty key.receiver ∧ ∀ ty ∈ key.args, R.ty ty) (allowed : s.refuses key = false)
    (framed : s.Entered key.function) (this : R.ty receiver) (typed : TypedArgs R call) :
    Does R s (enterBody visit f locator params body key receiver call frame)
      (enterBody other f locator params body key receiver call frame) R.typed := by
  obtain ⟨-, fresh, bounded⟩ := refuses_eq_false allowed
  have goOn {t : Session} (run : Runs R s t) (there : t.HasScope R frame) :
      Does R t
        (do bindParams visit f.node params call frame
            modify (·.pushCall key)
            let ty ← visitOption visit f.node body frame
            modifyGet (·.popCall key ty))
        (do bindParams other f.node params call frame
            modify (·.pushCall key)
            let ty ← visitOption other f.node body frame
            modifyGet (·.popCall key ty)) R.typed := by
    refine .bind (bindParams_does follows (rooted.after run) params typed (ready.after run) there)
      fun _ u bound _ => ?_
    -- Between the test and the entry nothing changes of what was tested.
    have whole := run.trans bound
    have unchanged := whole.guards
    refine body_does follows (ready.after whole) _ body (there.after bound) typedKey ?_ ?_
      (whole.recorded.entered framed)
    · rw [unchanged.callStack]
      exact fresh
    · rw [unchanged.active, whole.retains.options]
      exact bounded
  unfold enterBody
  split
  · have bound := runs_bind there this (hasTree_selfNode rooted locator) .object selfName
      (s.span f.node) .scope
    exact .update bound (goOn bound (there.after bound))
  · exact goOn (.refl s) there

theorem refuses_markCalled (s : Session) (id : FunctionId) (key : CallKey) :
    (s.markCalled id).refuses key = s.refuses key := by
  have active : ((s.markCalled id).function key.function).active = (s.function key.function).active :=
    active_modifyFunction (f := fun r => { r with called := true }) (fun _ => rfl) s id key.function
  have size : (s.markCalled id).functions.size = s.functions.size := Array.size_modify ..
  unfold refuses
  rw [active, size]
  rfl

theorem refuses_enterFrame (s : Session) (id : FunctionId) (key : CallKey) :
    (s.enterFrame id).2.refuses key = s.refuses key := by
  unfold enterFrame
  dsimp only
  split
  · rfl
  · have active := active_modifyFunction (f := fun r => { r with frame := some s.scopes.size })
      (fun _ => rfl) s id key.function
    have size : (s.modifyFunction id fun r =>
      { r with frame := some s.scopes.size }).functions.size = s.functions.size :=
      Array.size_modify ..
    simp only [refuses, ← active, ← size]
    rfl

theorem enter_run (visit : Visit) {key : CallKey} (receiver : Ty) (call : CallArgs)
    {body : Option NodeId} {isLambda : Bool}
    {doc : Option String} (defined : s.kind (s.function key.function).node =
      .function locator params body isLambda doc) :
    (enter visit key receiver call).run s =
      (enterBody visit (s.function key.function) locator params body key receiver call
        (s.enterFrame key.function).1).run
        (s.enterFrame key.function).2 := by
  unfold enter
  rw [run_get, run_get, defined]
  exact run_modifyGet ..

theorem enter_run_of_not {visit : Visit} {key : CallKey}
    (other : ¬ s.IsFunction (s.function key.function).node) :
    (enter visit key receiver call).run s = (.unknown, s) := by
  unfold enter
  rw [run_get, run_get]
  split
  · rename_i defined
    exact absurd ⟨_, _, _, _, _, defined⟩ other
  · rfl

theorem apply_run (visit : Visit) (id : FunctionId) (receiver : Ty) (call : CallArgs) :
    (apply visit id receiver call).run s =
      if s.refuses (callKey id receiver call) then (.unknown, s.markCalled id)
      else (enter visit (callKey id receiver call) receiver call).run (s.markCalled id) := by
  unfold apply
  rw [run_modify, run_get, refuses_markCalled]
  split <;> rfl

theorem node_markCalled (s : Session) (id : FunctionId) :
    ((s.markCalled id).function id).node = (s.function id).node := by
  refine (congrArg FunctionRecord.node
    (s.function_modifyFunction id (fun f => { f with called := true }) id)).trans ?_
  split <;> rfl

theorem apply_run_entered (visit : Visit) {id : FunctionId}
    (allowed : s.refuses (callKey id receiver call) = false) {body : Option NodeId}
    {isLambda : Bool} {doc : Option String}
    (defined : s.kind (s.function id).node = .function locator params body isLambda doc) :
    (apply visit id receiver call).run s =
      (enterBody visit ((s.markCalled id).function id) locator params body
        (callKey id receiver call) receiver call
        (s.enterFrame id).1).run ((s.enterFrame id).2.markCalled id) := by
  have node : ((s.markCalled id).function (callKey id receiver call).function).node =
      (s.function id).node := node_markCalled s id
  rw [apply_run, allowed, if_neg Bool.false_ne_true, enter_run visit receiver call (node ▸ defined),
    show (callKey id receiver call).function = id from rfl, s.enterFrame_markCalled id]

theorem called_markCalled {id : FunctionId} (inRange : id < s.functions.size) :
    ((s.markCalled id).function id).called = true := by
  refine (congrArg FunctionRecord.called
    (s.function_modifyFunction id (fun f => { f with called := true }) id)).trans ?_
  rw [if_pos ⟨rfl, inRange⟩]

section

variable (follows : Follows R room visit other) (ready : Ready R room s)
include follows ready

theorem apply_calls (id : FunctionId) (this : R.ty receiver) (typed : TypedArgs R call) :
    Does R s (apply visit id receiver call) (apply other id receiver call)
      (fun ty t => R.ty ty ∧ (id < s.functions.size → (t.function id).called = true)) := by
  have stops (due : s.Due id) (cut : ∀ v, (apply v id receiver call).run s = (.unknown, s.markCalled id)) :
      Does R s (apply visit id receiver call) (apply other id receiver call)
        (fun ty t => R.ty ty ∧ (id < s.functions.size → (t.function id).called = true)) :=
    Does.later (.markCalled id due) (cut visit) (cut other) (.pure ⟨R.closed.unknown, called_markCalled⟩)
  cases refused : s.refuses (callKey id receiver call) with
  | true => exact stops (.inl ⟨_, rfl, refused⟩) fun v => by rw [apply_run, refused, if_pos rfl]
  | false =>
    by_cases written : s.IsFunction (s.function id).node
    · obtain ⟨locator, params, body, isLambda, doc, defined⟩ := written
      have rooted : s.HasTree R (s.function id).node := hasTree_of_kind fun empty => by
        simp [empty] at defined
      obtain ⟨framed, there, entered⟩ := runs_enterFrame ready.sound (refuses_eq_false refused).1
      have marked : Runs R (s.enterFrame id).2 ((s.enterFrame id).2.markCalled id) :=
        .markCalled id (.inr (.inl entered))
      have run := framed.trans marked
      refine .later run (apply_run_entered visit refused defined) (apply_run_entered other refused defined) ?_
      refine .weaken (?_ : Does R _ _ _ fun ty _ => R.ty ty) fun ty t rest typed => ⟨typed, fun inRange => ?_⟩
      rotate_left
      · exact rest.recorded.called (called_markCalled (Nat.lt_of_lt_of_le inRange framed.recorded.size))
      refine entered_does follows (ready.after run) ?_ locator params body (there.after marked)
        (typed.key id this) ?_ (marked.recorded.entered entered) this typed
      · rw [node_markCalled]
        exact rooted.after run
      · rw [refuses_markCalled, refuses_enterFrame]
        exact refused
    · refine stops (.inr (.inr written)) fun v => ?_
      rw [apply_run, refused, if_neg Bool.false_ne_true, enter_run_of_not]
      rw [show ((s.markCalled id).function (callKey id receiver call).function).node =
        (s.function id).node from node_markCalled s id]
      exact written

theorem apply_does (id : FunctionId) (this : R.ty receiver) (typed : TypedArgs R call) :
    Does R s (apply visit id receiver call) (apply other id receiver call) R.typed :=
  (apply_calls follows ready id this typed).weaken fun _ _ _ done => done.1

theorem applyAll_does (callee : Ty) (this : R.ty receiver) (typed : TypedArgs R call) :
    Does R s (applyAll visit callee receiver call) (applyAll other callee receiver call) R.typed := by
  have each :
      Does R s (callee.functions.mapM (fun id => apply visit id receiver call))
        (callee.functions.mapM (fun id => apply other id receiver call))
        (fun results _ => ∀ ty ∈ results, R.ty ty) :=
    Does.mapM fun id _ t run => apply_does follows (ready.after run) id this typed
  exact .bind each fun results t _ typedResults => .pure (R.closed.makeUnion typedResults)

theorem applyBlock_does (scope : ScopeId) {args : List Ty} (typed : ∀ ty ∈ args, R.ty ty) :
    Does R s (applyBlock visit scope args) (applyBlock other scope args) R.typed := by
  unfold applyBlock
  refine .get ?_
  split
  · exact applyAll_does follows ready _ R.closed.unknown ⟨typed, by simp, by simp, by simp⟩
  · exact .pure R.closed.unknown

theorem construct_does (typed : TypedArgs R call) (classes : List ClassId) :
    Does R s (construct visit call classes) (construct other call classes)
      (fun tys _ => ∀ ty ∈ tys, R.ty ty) := by
  induction classes generalizing s with
  | nil => exact .pure (by simp)
  | cons c classes ih =>
    have goOn {t : Session} (run : Runs R s t) :
        Does R t (do return .inst c :: (← construct visit call classes))
          (do return .inst c :: (← construct other call classes))
          (fun tys _ => ∀ ty ∈ tys, R.ty ty) :=
      Does.bind (ih (ready.after run)) fun rest u _ typedRest =>
        Does.pure (List.forall_mem_cons.mpr ⟨R.closed.inst c, typedRest⟩)
    unfold construct
    refine .get ?_
    dsimp only
    split
    · exact .bind (applyAll_does follows ready _ (R.closed.inst c) typed).discard fun _ t run _ => goOn run
    · exact goOn (.refl s)

theorem callMember_does (this : R.ty receiver) (name : String) (attr : NodeRef) (typed : TypedArgs R call) :
    Does R s (callMember visit receiver name attr call) (callMember other receiver name attr call)
      R.typed := by
  unfold callMember
  split
  · exact .bind (construct_does follows ready typed _) fun made t _ typedMade =>
    .pure (R.closed.makeUnion typedMade)
  · split
    · exact applyAll_does follows ready _ R.closed.unknown typed
    · refine .get ?_
      split
      · exact .pure R.closed.unknown
      · rename_i ids found
        have referred : Runs R s (s.refer attr ids) :=
          .update (.refer attr ids (holds_lookupMember? found)) (.same rfl)
        refine .update referred (.get ?_)
        split
        · exact applyAll_does follows (ready.after referred) _ this typed
        · exact .pure ((ready.after referred).sound.typeOf ids)

end

end RubyInfer.Analysis
