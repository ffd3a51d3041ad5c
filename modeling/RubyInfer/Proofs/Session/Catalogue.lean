import RubyInfer.Proofs.Session.Reachable

/-!
# The functions of a session

Every function is made of a node, and `functionAt` finds it there again until its file is forgotten.
What can be found has been called or waits to be called (`Catalogued`), and no two functions are
found at one node. Hence there are no more of them than there are nodes.
-/

namespace RubyInfer.Session

variable {R : Regime} {s t : Session} {f : FunctionRecord} {id : FunctionId} {node : NodeRef}

structure Listed (s : Session) : Prop where
  distinct : s.functionAt.Pairwise (fun a b => ¬ (a.1.tree = b.1.tree ∧ a.1.id = b.1.id))
  entry {e : NodeRef × FunctionId} : e ∈ s.functionAt → e.2 < s.functions.size ∧ (s.function e.2).node = e.1
  written {id : FunctionId} : id < s.functions.size → s.IsFunction (s.function id).node
  waiting {id : FunctionId} : id ∈ s.uncalled → id < s.functions.size ∧ (s.function id).called = false

structure Catalogued (s : Session) : Prop extends Listed s where
  pending {e : NodeRef × FunctionId} : e ∈ s.functionAt → (s.function e.2).called = true ∨ e.2 ∈ s.uncalled

theorem Listed.tree_lt (listed : s.Listed) {e : NodeRef × FunctionId} (mem : e ∈ s.functionAt) :
    e.1.tree < s.cache.trees.size := by
  obtain ⟨inRange, node⟩ := listed.entry mem
  obtain ⟨_, _, _, _, _, defined⟩ := node ▸ listed.written inRange
  exact lt_size_of_kind (by simp [defined])

/-! ## Updates -/

theorem Plain.size (plain : Plain R s t) (step : Update R s t) : t.functions.size = s.functions.size := by
  cases step with
  | newFunction =>
    have longer := congrArg List.length plain.functionAt
    simp at longer
  | markCalled => exact Array.size_modify
  | newFrame => exact Array.size_modify
  | _ => rfl

theorem Listed.transfer (listed : s.Listed) (recorded : Recorded s t)
    (trees : s.cache.trees.toList <+: t.cache.trees.toList)
    (functionAt : t.functionAt = s.functionAt) (uncalled : t.uncalled = s.uncalled)
    (size : t.functions.size = s.functions.size)
    (called : ∀ id, (t.function id).called = true → (s.function id).called = true) : t.Listed where
  distinct := functionAt ▸ listed.distinct
  entry mem := by
    rw [functionAt] at mem
    obtain ⟨inRange, node⟩ := listed.entry mem
    exact ⟨size ▸ inRange, (recorded.node inRange).trans node⟩
  written inRange := by
    rw [size] at inRange
    rw [recorded.node inRange]
    exact (listed.written inRange).retained trees
  waiting mem := by
    rw [uncalled] at mem
    obtain ⟨inRange, untouched⟩ := listed.waiting mem
    refine ⟨size ▸ inRange, Bool.eq_false_iff.mpr fun was => ?_⟩
    rw [called _ was] at untouched
    cases untouched

theorem Catalogued.transfer (catalogued : s.Catalogued) (recorded : Recorded s t)
    (trees : s.cache.trees.toList <+: t.cache.trees.toList) (functionAt : t.functionAt = s.functionAt)
    (uncalled : t.uncalled = s.uncalled) (size : t.functions.size = s.functions.size)
    (called : ∀ id, (t.function id).called = true → (s.function id).called = true) : t.Catalogued := by
  refine ⟨catalogued.toListed.transfer recorded trees functionAt uncalled size called, fun {e} mem => ?_⟩
  rw [functionAt] at mem
  rw [uncalled]
  exact (catalogued.pending mem).imp_left recorded.called

theorem Catalogued.same (catalogued : s.Catalogued) (trees : s.cache.trees.toList <+: t.cache.trees.toList)
    (functionAt : t.functionAt = s.functionAt := by rfl) (uncalled : t.uncalled = s.uncalled := by rfl)
    (functions : t.functions = s.functions := by rfl) : t.Catalogued := by
  have same := function_of_eq functions
  have recorded : Recorded s t := by
    refine ⟨Nat.le_of_eq (congrArg Array.size functions.symm), fun _ => by rw [same], fun was => by
      rw [same]; exact was, fun was => ?_⟩
    unfold Entered
    rw [same]
    exact was
  exact catalogued.transfer recorded trees functionAt uncalled (by rw [functions]) fun id was => same id ▸ was

theorem Catalogued.modifyFunction (catalogued : s.Catalogued) (id : FunctionId)
    (f : FunctionRecord → FunctionRecord)
    (node : ∀ r, (f r).node = r.node) (called : ∀ r, (f r).called = r.called)
    (entered : ∀ r, r.frame.isSome = true → (f r).frame.isSome = true) :
    (s.modifyFunction id f).Catalogued := by
  have recorded := recorded_modifyFunction node (fun r was => (called r).trans was) entered s id
  exact catalogued.transfer recorded List.prefix_rfl rfl rfl Array.size_modify fun j was =>
    (called_modifyFunction called s id j).symm.trans was

theorem Catalogued.pushCall (catalogued : s.Catalogued) (key : CallKey) : (s.pushCall key).Catalogued := by
  have pushed := catalogued.modifyFunction key.function (fun f => { f with active := f.active + 1 })
    (fun _ => rfl) (fun _ => rfl)
    fun _ was => was
  exact pushed.same List.prefix_rfl

/-! ## Waiting -/

theorem Listed.addUncalled (listed : s.Listed) (inRange : id < s.functions.size) :
    (s.addUncalled id).Listed := by
  unfold Session.addUncalled
  split
  · exact listed
  · rename_i new
    rw [not_or] at new
    refine { listed with waiting := fun {j} mem => ?_ }
    obtain old | last := List.mem_append.mp mem
    · exact listed.waiting old
    · rw [List.mem_singleton.mp last]
      exact ⟨inRange, Bool.eq_false_iff.mpr new.1⟩

theorem Catalogued.addUncalled (listed : s.Listed) (inRange : id < s.functions.size)
    (others : ∀ e ∈ s.functionAt, e.2 ≠ id → (s.function e.2).called = true ∨ e.2 ∈ s.uncalled) :
    (s.addUncalled id).Catalogued := by
  refine ⟨listed.addUncalled inRange, fun {e} mem => ?_⟩
  unfold Session.addUncalled at mem ⊢
  by_cases here : e.2 = id
  · split
    · rename_i done
      rw [here]
      simpa using done
    · exact .inr (by simp [here])
  · split at mem
    · rename_i done
      rw [if_pos done]
      exact others e mem here
    · rename_i new
      rw [if_neg new]
      exact (others e mem here).imp_right (List.mem_append_left _)

theorem mem_of_functionOf? (found : s.functionOf? node = some id) :
    ∃ e ∈ s.functionAt, e.2 = id ∧ e.1.tree = node.tree ∧ e.1.id = node.id := by
  obtain ⟨e, here, rfl⟩ := Option.map_eq_some_iff.mp found
  have same := List.find?_some here
  exact ⟨e, List.mem_of_find?_eq_some here, rfl, by simpa using same⟩

theorem function_of_push (pushed : t.functions = s.functions.push f) {j : FunctionId}
    (inRange : j < s.functions.size) :
    t.function j = s.function j := by
  simp [function, pushed, Array.getElem?_push, Nat.ne_of_lt inRange]

theorem function_size_of_push (pushed : t.functions = s.functions.push f) :
    t.function s.functions.size = f := by
  simp [function, pushed]

theorem Listed.newFunction (listed : s.Listed) (new : s.functionOf? node = none)
    (written : s.IsFunction node) (madeOf : f.node = node) :
    Listed { s with
      functions := s.functions.push f,
      functionAt := s.functionAt ++ [(node, s.functions.size)] } := by
  let made : Session := { s with
    functions := s.functions.push f, functionAt := s.functionAt ++ [(node, s.functions.size)] }
  have old {j : FunctionId} (inRange : j < s.functions.size) : made.function j = s.function j :=
    function_of_push rfl inRange
  have last : made.function s.functions.size = f := function_size_of_push rfl
  have size : (s.functions.push f).size = s.functions.size + 1 := Array.size_push ..
  refine ⟨?_, fun {e} mem => ?_, fun {j} inRange => ?_, fun {j} mem => ?_⟩
  · rw [List.pairwise_append]
    refine ⟨listed.distinct, List.pairwise_singleton .., fun a mem b only => ?_⟩
    rw [List.mem_singleton.mp only]
    simpa using List.find?_eq_none.mp (Option.map_eq_none_iff.mp new) a mem
  · obtain there | only := List.mem_append.mp mem
    · obtain ⟨inRange, same⟩ := listed.entry there
      exact ⟨Nat.lt_of_lt_of_eq (Nat.lt_succ_of_lt inRange) size.symm,
        (congrArg FunctionRecord.node (old inRange)).trans same⟩
    · rw [List.mem_singleton.mp only]
      exact ⟨Nat.lt_of_lt_of_eq (Nat.lt_succ_self _) size.symm,
        (congrArg FunctionRecord.node last).trans madeOf⟩
  · obtain before | rfl := Nat.lt_or_eq_of_le (Nat.le_of_lt_succ (Nat.lt_of_lt_of_eq inRange size))
    · exact congrArg FunctionRecord.node (old before) ▸ listed.written before
    · exact ((congrArg FunctionRecord.node last).trans madeOf).symm ▸ written
  · obtain ⟨inRange, waits⟩ := listed.waiting mem
    exact ⟨Nat.lt_of_lt_of_eq (Nat.lt_succ_of_lt inRange) size.symm,
      (congrArg FunctionRecord.called (old inRange)).trans waits⟩

theorem Catalogued.queueFunction (catalogued : s.Catalogued) (written : s.IsFunction node)
    (name : String) (env : ScopeId) (owner : Option Owner) (classLevel isLambda : Bool) :
    (s.queueFunction node name env owner classLevel isLambda).Catalogued := by
  unfold Session.queueFunction functionFor
  cases found : s.functionOf? node with
  | some id =>
    obtain ⟨e, mem, rfl, -⟩ := mem_of_functionOf? found
    exact Catalogued.addUncalled catalogued.toListed (catalogued.entry mem).1 fun e mem _ =>
      catalogued.pending mem
  | none =>
    refine Catalogued.addUncalled (catalogued.toListed.newFunction found written rfl) (by simp)
      fun e mem other => ?_
    obtain old | only := List.mem_append.mp mem
    · rw [function_of_push rfl (catalogued.entry old).1]
      exact catalogued.pending old
    · exact absurd (congrArg Prod.snd (List.mem_singleton.mp only)) other

theorem Catalogued.markCalled
    (catalogued : s.Catalogued) (id : FunctionId) : (s.markCalled id).Catalogued := by
  have marked (j : FunctionId) := s.function_modifyFunction id (fun f => { f with called := true }) j
  have recorded : Recorded s (s.markCalled id) := (Update.markCalled (R := .any) id).recorded
  have size : (s.markCalled id).functions.size = s.functions.size := Array.size_modify
  refine { distinct := catalogued.distinct, entry := fun {e} mem => ?_, written :=
    fun {j} inRange => ?_, waiting := fun {j} mem => ?_,
           pending := fun {e} mem => ?_ }
  · obtain ⟨inRange, node⟩ := catalogued.entry mem
    exact ⟨Nat.lt_of_lt_of_eq inRange size.symm, (recorded.node inRange).trans node⟩
  · rw [size] at inRange
    rw [recorded.node inRange]
    exact catalogued.written inRange
  · obtain ⟨there, other⟩ := List.mem_filter.mp mem
    obtain ⟨inRange, waits⟩ := catalogued.waiting there
    refine ⟨Nat.lt_of_lt_of_eq inRange size.symm, ?_⟩
    rw [← waits]
    refine congrArg FunctionRecord.called ((marked j).trans (if_neg fun same => ?_))
    simp [same.1] at other
  · by_cases here : e.2 = id
    · left
      refine (congrArg FunctionRecord.called (marked e.2)).trans ?_
      rw [if_pos ⟨here.symm, (catalogued.entry mem).1⟩]
    · exact (catalogued.pending mem).imp recorded.called fun waits =>
      List.mem_filter.mpr ⟨waits, by simpa using here⟩

/-! ## Runs -/

theorem Runs.catalogued (run : Runs R s t) (catalogued : s.Catalogued) : t.Catalogued := by
  induction run with
  | refl => exact catalogued
  | update step plain =>
    exact catalogued.transfer step.recorded step.retains.trees plain.functionAt plain.uncalled
      (plain.size step) plain.called
  | define node name env owner classLevel isLambda written => exact catalogued.queueFunction written ..
  | markCalled id => exact catalogued.markCalled id
  | clearFailure | exhaust => exact catalogued.same List.prefix_rfl
  | trans _ _ first second => exact second (first catalogued)
  | visit _ _ inside => exact (inside (catalogued.same List.prefix_rfl)).same List.prefix_rfl
  | staticBody _ _ inside => exact (inside (catalogued.same List.prefix_rfl)).same List.prefix_rfl
  | file _ _ _ inside => exact (inside (catalogued.same List.prefix_rfl)).same List.prefix_rfl
  | @call _ t key result _ _ _ _ _ _ _ inside =>
    have popped := (inside (catalogued.pushCall key)).modifyFunction key.function
      (fun f => { f with
        active := f.active - 1, ret := f.ret.join (result.join (t.returns.headD .unknown)) })
      (fun _ => rfl) (fun _ => rfl) fun _ was => was
    exact popped.same List.prefix_rfl

theorem Act.catalogued (step : Act s t) (idle : s.Idle) (catalogued : s.Catalogued) : t.Catalogued := by
  cases step with
  | advance step =>
    cases step with
    | begin => exact catalogued.same List.prefix_rfl
    | prewarm paths => exact catalogued.same (s.cache.prefix_trees_prewarm paths s.files)
    | load path force => exact (runs_load s.sound_any idle.depth path force).catalogued catalogued
    | drain id => exact ((runs_apply s.sound_any idle.depth id).catalogued catalogued).same List.prefix_rfl
  | removeFile path =>
    refine { distinct := catalogued.distinct.filter _, entry := fun {e} mem => ?_, written :=
      fun {j} inRange => ?_,
             waiting := fun {j} mem => ?_, pending := fun {e} mem => ?_ }
    · exact catalogued.entry (List.mem_filter.mp mem).1
    · exact catalogued.written inRange
    · exact catalogued.waiting (List.mem_filter.mp mem).1
    · obtain ⟨there, elsewhere⟩ := List.mem_filter.mp mem
      refine (catalogued.pending there).imp_right fun waits => List.mem_filter.mpr ⟨waits, ?_⟩
      rw [(catalogued.entry there).2]
      exact elsewhere
  | edit | setStatic | clearCache | reportUnused => exact catalogued.same List.prefix_rfl

theorem Passed.catalogued (passed : Passed s) : s.Catalogued := by
  induction passed with
  | new made =>
    rw [new_eq made]
    exact { distinct := .nil, entry := fun mem => (nomatch mem), written := fun inRange => (nomatch inRange),
            waiting := fun mem => (nomatch mem), pending := fun mem => (nomatch mem) }
  | act before step catalogued => exact step.catalogued before.idle catalogued

end RubyInfer.Session
