import RubyInfer.Proofs.Session.Sound

/-!
# Guards

A session keeps track of what is under way: the depth, the static context, the folder and the files
being loaded, the applications with what they have returned, and for each function how often it is
active. A run takes back what it puts there, because only brackets change these and each bracket is
closed.
-/

namespace RubyInfer.Session

variable {f : FunctionRecord → FunctionRecord}

structure SameGuards (s t : Session) : Prop where
  depth : t.depth = s.depth
  staticContext : t.staticContext = s.staticContext
  cwd : t.cwd = s.cwd
  importStack : t.importStack = s.importStack
  callStack : t.callStack = s.callStack
  returns : t.returns.length = s.returns.length
  active (id : FunctionId) : (t.function id).active = (s.function id).active

theorem SameGuards.refl (s : Session) : SameGuards s s := ⟨rfl, rfl, rfl, rfl, rfl, rfl, fun _ => rfl⟩

theorem SameGuards.trans {s t u : Session} (first : SameGuards s t) (second : SameGuards t u) :
    SameGuards s u where
  depth := second.depth.trans first.depth
  staticContext := second.staticContext.trans first.staticContext
  cwd := second.cwd.trans first.cwd
  importStack := second.importStack.trans first.importStack
  callStack := second.callStack.trans first.callStack
  returns := second.returns.trans first.returns
  active id := (second.active id).trans (first.active id)

/-! ## Active functions -/

theorem function_modifyFunction (s : Session) (id : FunctionId)
    (f : FunctionRecord → FunctionRecord) (j : FunctionId) :
    (s.modifyFunction id f).function j = if id = j ∧ j < s.functions.size then f (s.function j) else
      s.function j := by
  simp only [function, modifyFunction, Array.getElem?_modify]
  by_cases here : id = j
  · by_cases inRange : j < s.functions.size <;> simp [here, inRange]
  · simp [here]

theorem function_of_eq {s t : Session} (functions : t.functions = s.functions) (id : FunctionId) :
    t.function id = s.function id := by
  unfold function
  rw [functions]

theorem function_popCall_of_ne {s : Session} {key : CallKey} {body : Ty} {j : FunctionId}
    (other : key.function ≠ j) :
    (s.popCall key body).2.function j = s.function j := by
  show (s.modifyFunction key.function _).function j = s.function j
  rw [function_modifyFunction, if_neg fun same => other same.1]

theorem active_modifyFunction (keeps : ∀ r, (f r).active = r.active) (s : Session) (id j : FunctionId) :
    ((s.modifyFunction id f).function j).active = (s.function j).active := by
  rw [function_modifyFunction]
  split
  · exact keeps _
  · rfl

theorem called_modifyFunction (keeps : ∀ r, (f r).called = r.called) (s : Session) (id j : FunctionId) :
    ((s.modifyFunction id f).function j).called = (s.function j).called := by
  rw [function_modifyFunction]
  split
  · exact keeps _
  · rfl

theorem active_push (s : Session) (r : FunctionRecord) (idle : r.active = 0) (j : FunctionId) :
    (function { s with functions := s.functions.push r } j).active = (s.function j).active := by
  simp only [function, Array.getElem?_push]
  split
  · rename_i last
    subst last
    simp [idle, default, instInhabitedFunctionRecord.default]
  · rfl

theorem idle_of_size_le {s : Session} {j : FunctionId} (absent : s.functions.size ≤ j) :
    (s.function j).active = 0 := by
  simp [function, Array.getElem?_eq_none absent, default, instInhabitedFunctionRecord.default]

theorem active_pushCall (s : Session) (key : CallKey) (j : FunctionId) :
    ((s.pushCall key).function j).active =
      if key.function = j ∧ j < s.functions.size then (s.function j).active + 1 else
        (s.function j).active := by
  have unfolded := s.function_modifyFunction key.function (fun f => { f with active := f.active + 1 }) j
  show ((s.modifyFunction key.function _).function j).active = _
  rw [unfolded]
  split <;> rfl

theorem active_popCall (s : Session) (key : CallKey) (body : Ty) (j : FunctionId) :
    ((s.popCall key body).2.function j).active =
      if key.function = j then (s.function j).active - 1 else (s.function j).active := by
  have unfolded := s.function_modifyFunction key.function
    (fun f => { f with active := f.active - 1, ret := f.ret.join (body.join (s.returns.headD .unknown)) }) j
  show ((s.modifyFunction key.function _).function j).active = _
  rw [unfolded]
  by_cases here : key.function = j
  · by_cases inRange : j < s.functions.size
    · simp [here, inRange]
    · simp [here, inRange, idle_of_size_le (Nat.le_of_not_lt inRange)]
  · simp [here]

theorem active_popCall_of_push {s t : Session} {key : CallKey} {result : Ty}
    (inside : ∀ j, (t.function j).active = ((s.pushCall key).function j).active) (j : FunctionId) :
    ((t.popCall key result).2.function j).active = (s.function j).active := by
  rw [active_popCall, inside, active_pushCall]
  by_cases here : key.function = j
  · by_cases inRange : j < s.functions.size
    · simp [here, inRange]
    · simp [here, inRange, idle_of_size_le (Nat.le_of_not_lt inRange)]
  · simp [here]

/-! ## Records -/

structure Recorded (s t : Session) : Prop where
  size : s.functions.size ≤ t.functions.size
  node {id : FunctionId} : id < s.functions.size → (t.function id).node = (s.function id).node
  called {id : FunctionId} : (s.function id).called = true → (t.function id).called = true
  entered {id : FunctionId} : s.Entered id → t.Entered id

theorem Recorded.refl (s : Session) : Recorded s s :=
  ⟨Nat.le_refl _, fun _ => rfl, fun was => was, fun was => was⟩

theorem Recorded.trans {s t u : Session} (first : Recorded s t) (second : Recorded t u) : Recorded s u where
  size := Nat.le_trans first.size second.size
  node there := (second.node (Nat.lt_of_lt_of_le there first.size)).trans (first.node there)
  called was := second.called (first.called was)
  entered was := second.entered (first.entered was)

theorem recorded_modifyFunction (node : ∀ r, (f r).node = r.node)
    (called : ∀ r, r.called = true → (f r).called = true)
    (entered : ∀ r, r.frame.isSome = true → (f r).frame.isSome = true) (s : Session) (id : FunctionId) :
    Recorded s (s.modifyFunction id f) := by
  refine ⟨Nat.le_of_eq (Array.size_modify ..).symm, fun {j} _ => ?_, fun {j} was => ?_, fun {j} was => ?_⟩
  · rw [function_modifyFunction]
    split
    · exact node _
    · rfl
  · rw [function_modifyFunction]
    split
    · exact called _ was
    · exact was
  · unfold Entered
    rw [function_modifyFunction]
    split
    · exact entered _ was
    · exact was

theorem recorded_push (s : Session) (r : FunctionRecord) :
    Recorded s { s with functions := s.functions.push r } := by
  have old {j : FunctionId} (there : j < s.functions.size) :
      function { s with functions := s.functions.push r } j = s.function j := by
    simp [function, Array.getElem?_push, Nat.ne_of_lt there]
  have absent {j : FunctionId} (missing : ¬ j < s.functions.size) : s.function j = default := by
    simp [function, Array.getElem?_eq_none (Nat.le_of_not_lt missing)]
  refine ⟨by simp, fun there => by rw [old there], fun {j} was => ?_, fun {j} was => ?_⟩
  · by_cases there : j < s.functions.size
    · rw [old there]
      exact was
    · rw [absent there] at was
      cases was
  · by_cases there : j < s.functions.size
    · unfold Entered
      rw [old there]
      exact was
    · unfold Entered at was
      rw [absent there] at was
      cases was

section Records

variable {R : Regime} {s t : Session}

theorem Update.recorded (step : Update R s t) : Recorded s t := by
  have same := Recorded.refl s
  cases step with
  | newFunction => exact { recorded_push s _ with }
  | markCalled id =>
    exact { recorded_modifyFunction
      (f := fun r => { r with called := true }) (fun _ => rfl) (fun _ _ => rfl)
      (fun _ was => was) s id
      with }
  | newFrame id =>
    exact { recorded_modifyFunction
      (f := fun r => { r with frame := some s.scopes.size }) (fun _ => rfl) (fun _ was => was)
      (fun _ _ => rfl) s id with }
  | _ => exact ⟨same.size, same.node, same.called, same.entered⟩

theorem Change.recorded (change : Change R s t) : Recorded s t := by
  have same := Recorded.refl s
  cases change with
  | update step => exact step.recorded
  | pushCall key =>
    exact { recorded_modifyFunction
      (f := fun r => { r with active := r.active + 1 }) (fun _ => rfl) (fun _ was => was)
      (fun _ was => was) s key.function with }
  | popCall key result =>
    exact { recorded_modifyFunction
      (f := fun r => { r with
        active := r.active - 1, ret := r.ret.join (result.join (s.returns.headD .unknown)) })
      (fun _ => rfl) (fun _ was => was) (fun _ was => was) s key.function with }
  | _ => exact ⟨same.size, same.node, same.called, same.entered⟩

theorem Runs.recorded (run : Runs R s t) : Recorded s t := by
  exact run.lift Recorded.refl Recorded.trans Change.recorded

end Records

/-! ## Runs restore guards -/

variable {R : Regime} {s t : Session}

theorem Update.guards (step : Update R s t) : SameGuards s t := by
  have same := SameGuards.refl s
  cases step with
  | newFunction => exact { same with active := s.active_push _ rfl }
  | markCalled id =>
    exact { same with
      active := active_modifyFunction (f := fun r => { r with called := true }) (fun _ => rfl) s id }
  | newFrame id =>
    have frame (r : FunctionRecord) : { r with frame := some s.scopes.size }.active = r.active := rfl
    exact { same with active := active_modifyFunction frame s id }
  | addReturn acc ty rest current => exact { same with returns := by simp [current] }
  | _ => exact ⟨rfl, rfl, rfl, rfl, rfl, rfl, fun _ => rfl⟩

theorem Runs.guards (run : Runs R s t) : SameGuards s t := by
  induction run with
  | refl s => exact .refl s
  | update step => exact step.guards
  | define => exact @Update.queueFunction R SameGuards .refl .trans Update.guards ..
  | markCalled id => exact (Update.markCalled (R := R) id).guards
  | clearFailure file => exact (Update.clearFailure (R := R) file).guards
  | exhaust => exact (Update.exhaust (R := R)).guards
  | trans _ _ first second => exact first.trans second
  | visit _ _ inside => exact { inside with depth := by simp [inside.depth] }
  | staticBody _ _ inside => exact { inside with staticContext := rfl }
  | @file s t path fresh _ inside =>
    refine { inside with cwd := rfl, importStack := ?_ }
    show t.importStack.erase path = s.importStack
    rw [inside.importStack]
    exact PathSet.erase_insert fresh
  | @call s t key result _ _ _ _ _ _ _ inside =>
    refine { inside with callStack := ?_, returns := ?_, active := active_popCall_of_push inside.active }
    · show t.callStack.erase key = s.callStack
      rw [inside.callStack]
      exact List.erase_cons_head ..
    · show t.returns.tail.length = s.returns.length
      rw [List.length_tail, inside.returns]
      rfl

end RubyInfer.Session
