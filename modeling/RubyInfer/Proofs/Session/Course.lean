import RubyInfer.Proofs.Diagnostic
import RubyInfer.Proofs.Session.Guards
import RubyInfer.Proofs.Syntax.Kind

/-!
# What happens on the way

The parts of inference are written for any kind of computation on a session. In `Told` they also
tell what happens on the way: which nodes are visited, and through which sessions it leads. A
`Course` is what can happen. It is built like a run, but it knows its events, and a file that is
loaded or a body that is entered is one piece of it from its beginning to its end.
-/

namespace RubyInfer

/-- A visit to a node begins, or the session changes. -/
inductive Event
  | visit (node : NodeRef) (scope : ScopeId) (s : Session)
  | change (s t : Session)

def Event.sessions : Event → List Session
  | visit _ _ s => [s]
  | change s t => [s, t]

def through (events : List Event) : List Session := events.flatMap Event.sessions

@[simp]
theorem through_nil : through [] = [] := rfl

@[simp]
theorem through_cons (e : Event) (events : List Event) :
    through (e :: events) = e.sessions ++ through events := by
  simp [through]

@[simp]
theorem through_append (first second : List Event) :
    through (first ++ second) = through first ++ through second := by
  simp [through]

def Told (α : Type) : Type := Session → α × Session × List Event

namespace Told

variable {rest : List Event} {s u : Session}

instance : Monad Told where
  pure a := fun s => (a, s, [])
  bind x f := fun s =>
    let first := x s
    let rest := f first.1 first.2.1
    (rest.1, rest.2.1, first.2.2 ++ rest.2.2)

instance : LawfulMonad Told := LawfulMonad.mk' Told
  (fun x => funext fun s => congrArg (fun events => ((x s).1, (x s).2.1, events)) (List.append_nil _))
  (fun a f => rfl)
  (fun x f g => funext fun s => by simp [Bind.bind])

instance : MonadStateOf Session Told where
  get := fun s => (s, s, [])
  set t := fun s => (⟨⟩, t, [.change s t])
  modifyGet f := fun s => ((f s).1, (f s).2, [.change s (f s).2])

theorem run_bind {α β : Type} {s t u : Session} {x : Told α} {f : α → Told β} {a : α} {b : β}
    {first rest : List Event}
    (before : x s = (a, t, first)) (after : f a t = (b, u, rest)) : (x >>= f) s = (b, u, first ++ rest) := by
  show ((f (x s).1 (x s).2.1).1, (f (x s).1 (x s).2.1).2.1, (x s).2.2 ++ (f (x s).1 (x s).2.1).2.2) = _
  rw [before]
  dsimp only
  rw [after]

theorem run_get {β : Type} {f : Session → Told β} {b : β} (after : f s s = (b, u, rest)) :
    (get >>= f) s = (b, u, rest) := after

theorem run_modifyGet {α β : Type} {c : Session → α × Session} {f : α → Told β} {b : β}
    (after : f (c s).1 (c s).2 = (b, u, rest)) :
    (modifyGet c >>= f) s = (b, u, .change s (c s).2 :: rest) :=
  run_bind (show (modifyGet c : Told α) s = (_, _, [_]) from rfl) after

theorem run_modify {β : Type} {c : Session → Session} {f : PUnit → Told β} {b : β}
    (after : f ⟨⟩ (c s) = (b, u, rest)) :
    (modify c >>= f) s = (b, u, .change s (c s) :: rest) :=
  run_modifyGet after

def visiting (node : NodeRef) (scope : ScopeId) : Told Unit := fun s => (⟨⟩, s, [.visit node scope s])

end Told

def Analysis.tell : (levels : Nat) → VisitIn Told
  | 0, node, scope => do
    Told.visiting node scope
    modify fun s => { s with exhausted := true }
    return .unknown
  | levels + 1, node, scope => do
    Told.visiting node scope
    if (← get).exhausted then return .unknown
    modify fun s => { s with depth := s.depth + 1 }
    let ty ← inferNode (tell levels) node scope
    modify fun s => { s with depth := s.depth - 1 }
    return ty

namespace Session

/-! ## Single steps -/

def classNames (s : Session) : List String := s.classes.toList.map ClassRecord.qname

def moduleNames (s : Session) : List String := s.modules.toList.map ModuleRecord.qname

/-- Nothing begins or ends: no file, no application, no visit. -/
structure Quiet (s t : Session) : Prop where
  options : t.options = s.options
  files : t.files = s.files
  cache : t.cache = s.cache
  projectDir : t.projectDir = s.projectDir
  cwd : t.cwd = s.cwd
  depth : t.depth = s.depth
  exhausted : t.exhausted = s.exhausted
  importStack : t.importStack = s.importStack
  callStack : t.callStack = s.callStack
  loaded : t.loaded = s.loaded
  failed : t.failed = s.failed
  failures (file : Path) : t.diagnostics.failures file = s.diagnostics.failures file
  functions : s.functions.size ≤ t.functions.size
  active (id : FunctionId) : (t.function id).active = (s.function id).active
  classes : s.classNames <+: t.classNames
  modules : s.moduleNames <+: t.moduleNames

def Part (s : Session) (node : NodeRef) : Prop :=
  ∃ parent : NodeId, node.id ∈ (s.kind (node.sibling parent)).parts

def rootOf (s : Session) (tree : Nat) : NodeRef :=
  let ast := s.cache.trees[tree]?.getD default
  ⟨tree, ast.file, ast.root⟩

def found (s : Session) (file : Path) : Session :=
  { (s.fetch file).2 with failed := (s.fetch file).2.failed.erase file }

def fileEnded (s : Session) (depth : Nat) (file : Path) : Session :=
  if s.exhausted then { s.skipExhausted with exhausted := false, depth } else
    { s with loaded := s.loaded.insert file }

/-! ## Loading by force -/

/-- The arguments of a call of `load`, unless the program has its own. -/
def loadArgs? (s : Session) (node : NodeRef) (scope : ScopeId) : Option (List NodeId) :=
  match s.kind node with
  | .call func args _ _ _ =>
    if s.kind (node.sibling func) = .name "load" .plain ∧ s.lookupName? scope "load" = none then
      some args else none
  | _ => none

/-- The files that are there for the arguments. -/
def filesFor (s : Session) (visit : Visit) (node : NodeRef) (args : List NodeId) (scope : ScopeId) :
    List Path :=
  let given := (Analysis.visitAll visit node args scope).run s
  (given.1.flatMap Ty.stringLiterals).filterMap fun name => given.2.findRequired? (given.2.requiredPath name)

def ForcesBy (visit : Visit) (s : Session) (node : NodeRef) (scope : ScopeId) : Prop :=
  ∃ args ∈ s.loadArgs? node scope, s.filesFor visit node args scope ≠ []

/-- A visit to the node loads a file by force. -/
def Forces (s : Session) (node : NodeRef) (scope : ScopeId) : Prop :=
  ForcesBy (Analysis.infer (s.options.maxDepth - (s.depth + 1))) { s with depth := s.depth + 1 } node scope

instance (s : Session) (node : NodeRef) (scope : ScopeId) : Decidable (s.Forces node scope) := by
  unfold Forces ForcesBy
  infer_instance

/-! ## Courses -/

/-- What happens from one session to another, in a visit to a node or in something else. Outside of
further visits, a file that is loaded may be loaded again if that is forced. -/
inductive Course : (forced : Prop) → Option NodeRef → Session → List Event → Session → Prop
  | nil {p : Prop} (s : Session) : Course p none s [] s
  | append {p : Prop} {s t u : Session} {first second : List Event} (before : Course p none s first t)
      (after : Course p none t second u) : Course p none s (first ++ second) u
  | quiet {p : Prop} {s t : Session} (quiet : s.Quiet t) : Course p none s [.change s t] t
  | part {p : Prop} {s t : Session} {node : NodeRef} {events : List Event} (part : s.Part node)
      (visit : Course False (some node) s events t) : Course p none s events t
  | refused {s : Session} (node : NodeRef) (scope : ScopeId) (spent : s.options.maxDepth ≤ s.depth) :
      Course False (some node) s [.visit node scope s, .change s { s with exhausted := true }]
        { s with exhausted := true }
  | passed {s : Session} (node : NodeRef) (scope : ScopeId) (spent : s.exhausted = true) :
      Course False (some node) s [.visit node scope s] s
  | inside {s t : Session} {events : List Event} (node : NodeRef) (scope : ScopeId)
      (room : s.depth < s.options.maxDepth) (going : s.exhausted = false)
      (inner : Course (s.Forces node scope) none { s with depth := s.depth + 1 } events t) :
      Course False (some node) s
        ([.visit node scope s, .change s { s with depth := s.depth + 1 }] ++ events ++
          [.change t { t with depth := t.depth - 1 }])
        { t with depth := t.depth - 1 }
  | unread {p : Prop} {s : Session} {file : Path} (fresh : s.importStack.contains file = false)
      (absent : (s.fetch file).1 = none) :
      Course p none s [.change s (s.fetch file).2,
        .change (s.fetch file).2 ((s.fetch file).2.recordFailure file)]
        ((s.fetch file).2.recordFailure file)
  | oversized {p : Prop} {s : Session} {file : Path} {tree : Nat} (present : (s.fetch file).1 = some tree)
      (large : s.options.maxNodes < ((s.fetch file).2.cache.trees[tree]?.getD default).size) :
      Course p none s [.change s (s.fetch file).2, .change (s.fetch file).2 (s.fetch file).2.skipExhausted]
        (s.fetch file).2.skipExhausted
  | load {p : Prop} {s t : Session} {file : Path} {tree : Nat} {events : List Event}
      (fresh : s.importStack.contains file = false) (again : p ∨ s.loaded.contains file = false)
      (present : (s.fetch file).1 = some tree)
      (fits : ((s.fetch file).2.cache.trees[tree]?.getD default).size ≤ s.options.maxNodes)
      (root : Course False (some ((s.found file).rootOf tree)) ((s.found file).openFile file) events t) :
      Course p none s
        ([.change s (s.fetch file).2, .change (s.fetch file).2 (s.found file),
          .change (s.found file) ((s.found file).openFile file)] ++
          events ++ [.change t (t.closeFile s.cwd file),
          .change (t.closeFile s.cwd file) ((t.closeFile s.cwd file).fileEnded s.depth file)])
        ((t.closeFile s.cwd file).fileEnded s.depth file)
  | call {p : Prop} {s t : Session} {key : CallKey} {events : List Event} (result : Ty)
      (there : key.function < s.functions.size) (fresh : s.callStack.contains key = false)
      (bounded : (s.function key.function).active < s.options.maxRecursion)
      (body : Course p none (s.pushCall key) events t) :
      Course p none s ([.change s (s.pushCall key)] ++ events ++
        [.change t (t.popCall key result).2]) (t.popCall key result).2

variable {p : Prop} {o : Option NodeRef} {s t u : Session} {events : List Event}

/-! ## What a course keeps -/

structure Steady (s t : Session) : Prop where
  options : t.options = s.options
  projectDir : t.projectDir = s.projectDir
  cwd : t.cwd = s.cwd
  depth : t.depth = s.depth
  importStack : t.importStack = s.importStack
  callStack : t.callStack = s.callStack
  functions : s.functions.size ≤ t.functions.size
  active (id : FunctionId) : (t.function id).active = (s.function id).active
  trees : s.cache.trees.toList <+: t.cache.trees.toList

theorem Steady.refl (s : Session) : Steady s s :=
  ⟨rfl, rfl, rfl, rfl, rfl, rfl, Nat.le_refl _, fun _ => rfl, List.prefix_rfl⟩

theorem Steady.trans (first : Steady s t) (second : Steady t u) : Steady s u where
  options := second.options.trans first.options
  projectDir := second.projectDir.trans first.projectDir
  cwd := second.cwd.trans first.cwd
  depth := second.depth.trans first.depth
  importStack := second.importStack.trans first.importStack
  callStack := second.callStack.trans first.callStack
  functions := Nat.le_trans first.functions second.functions
  active id := (second.active id).trans (first.active id)
  trees := first.trees.trans second.trees

theorem Quiet.steady (quiet : Quiet s t) : Steady s t :=
  { quiet with trees := quiet.cache ▸ List.prefix_rfl }

theorem steady_fetch (s : Session) (file : Path) : Steady s (s.fetch file).2 :=
  { Steady.refl s with trees := s.cache.prefix_trees_get file s.files }

theorem steady_found (s : Session) (file : Path) : Steady s (s.found file) := { s.steady_fetch file with }

theorem steady_fileEnded (s : Session) (file : Path) : Steady s (s.fileEnded s.depth file) := by
  unfold fileEnded
  split <;> exact { Steady.refl s with }

theorem steady_closeFile {file : Path} (fresh : s.importStack.contains file = false)
    (inside : Steady ((s.found file).openFile file) t) :
    Steady s (t.closeFile s.cwd file) := by
  refine { inside with
    cwd := rfl, importStack := ?_, trees := (s.steady_fetch file).trees.trans inside.trees }
  show t.importStack.erase file = s.importStack
  rw [inside.importStack]
  exact PathSet.erase_insert fresh

theorem Course.steady (course : Course p o s events t) : Steady s t := by
  induction course with
  | nil s => exact .refl s
  | append _ _ before after => exact before.trans after
  | quiet quiet => exact quiet.steady
  | part _ _ visit => exact visit
  | @refused s => exact { Steady.refl s with }
  | @passed s => exact .refl s
  | inside _ _ _ _ _ inner => exact { inner with depth := by simp [inner.depth] }
  | @unread _ s file => exact { s.steady_fetch file with }
  | @oversized _ s file => exact { s.steady_fetch file with }
  | @load _ s t file _ _ fresh _ _ _ _ root =>
    have closed := steady_closeFile fresh root
    have last := (t.closeFile s.cwd file).steady_fileEnded file
    rw [closed.depth] at last
    exact closed.trans last
  | @call _ s t key _ _ _ _ _ _ body =>
    refine { body with callStack := ?_, functions := ?_, active := active_popCall_of_push body.active }
    · show t.callStack.erase key = s.callStack
      rw [body.callStack]
      exact List.erase_cons_head ..
    · show s.functions.size ≤ (t.functions.modify key.function _).size
      rw [Array.size_modify]
      exact Nat.le_trans (Nat.le_of_eq (Array.size_modify ..).symm) body.functions

/-! ## What holds on the way -/

theorem Course.way {rel : Session → Session → Prop} (kept : ∀ {a b}, Steady a b → rel a b)
    (trans : ∀ {a b c}, rel a b → rel b c → rel a c)
    (deeper : ∀ a : Session, rel a { a with depth := a.depth + 1 })
    (opened : ∀ (a : Session) (file : Path), rel a (a.openFile file))
    (called : ∀ (a : Session) (key : CallKey), key.function < a.functions.size →
      a.callStack.contains key = false →
      (a.function key.function).active < a.options.maxRecursion → rel a (a.pushCall key))
    (course : Course p o s events t) : ∀ m ∈ through events, rel s m := by
  have same (a : Session) : rel a a := kept (.refl a)
  induction course with
  | nil => simp
  | append before _ first second =>
    rw [through_append, List.forall_mem_append]
    exact ⟨first, fun m mem => trans (kept before.steady) (second m mem)⟩
  | quiet quiet => simp [Event.sessions, same, kept quiet.steady]
  | part _ _ visit => exact visit
  | refused node scope spent => simp [Event.sessions, same, kept (Course.refused node scope spent).steady]
  | passed => simp [Event.sessions, same]
  | @inside s _ _ node scope room going inner within =>
    have begun := deeper s
    have last := trans begun (kept inner.steady)
    have back := kept (Course.inside node scope room going inner).steady
    simp only [through_append, List.forall_mem_append]
    refine ⟨⟨?_, fun m mem => trans begun (within m mem)⟩, ?_⟩
    · simp [Event.sessions, same, begun]
    · simp [Event.sessions, last, back]
  | @unread p s file fresh absent =>
    have done : Steady s _ := (Course.unread (p := p) fresh absent).steady
    simp [Event.sessions, same, kept (s.steady_fetch file), kept done]
  | @oversized p s file _ present large =>
    have done : Steady s _ := (Course.oversized (p := p) present large).steady
    simp [Event.sessions, same, kept (s.steady_fetch file), kept done]
  | @load _ s t file _ _ fresh again present fits root within =>
    have read := kept (s.steady_found file)
    have begun := trans read (opened _ file)
    have last := trans begun (kept root.steady)
    have closed := kept (steady_closeFile fresh root.steady)
    have done := kept (Course.load fresh again present fits root).steady
    simp only [through_append, List.forall_mem_append]
    refine ⟨⟨?_, fun m mem => trans begun (within m mem)⟩, ?_⟩
    · simp [Event.sessions, same, kept (s.steady_fetch file), read, begun]
    · simp [Event.sessions, last, closed, done]
  | @call _ s _ key _ result there fresh bounded body within =>
    have begun := called s key there fresh bounded
    have last := trans begun (kept body.steady)
    have done := kept (Course.call result there fresh bounded body).steady
    simp only [through_append, List.forall_mem_append]
    refine ⟨⟨?_, fun m mem => trans begun (within m mem)⟩, ?_⟩
    · simp [Event.sessions, same, begun]
    · simp [Event.sessions, last, done]

structure Around (s m : Session) : Prop where
  options : m.options = s.options
  importStack : s.importStack.paths <+: m.importStack.paths
  callStack : s.callStack <:+ m.callStack
  trees : s.cache.trees.toList <+: m.cache.trees.toList

theorem Around.trans {m : Session} (first : Around s t) (second : Around t m) : Around s m where
  options := second.options.trans first.options
  importStack := first.importStack.trans second.importStack
  callStack := first.callStack.trans second.callStack
  trees := first.trees.trans second.trees

theorem Steady.around (kept : Steady s t) : Around s t where
  options := kept.options
  importStack := kept.importStack ▸ List.prefix_rfl
  callStack := kept.callStack ▸ List.suffix_rfl
  trees := kept.trees

theorem Course.around (course : Course p o s events t) : ∀ m ∈ through events, Around s m :=
  course.way Steady.around Around.trans (fun _ => ⟨rfl, List.prefix_rfl, List.suffix_rfl, List.prefix_rfl⟩)
    (fun a file => ⟨rfl, a.importStack.prefix_insert file, List.suffix_rfl, List.prefix_rfl⟩)
    (fun _ _ _ _ _ => ⟨rfl, List.prefix_rfl, List.suffix_cons .., List.prefix_rfl⟩)

/-! ## What only grows -/

structure Onward (s t : Session) : Prop where
  trees : s.cache.trees.toList <+: t.cache.trees.toList
  functions : s.functions.size ≤ t.functions.size
  classes : s.classNames <+: t.classNames
  modules : s.moduleNames <+: t.moduleNames

theorem Onward.refl (s : Session) : Onward s s :=
  ⟨List.prefix_rfl, Nat.le_refl _, List.prefix_rfl, List.prefix_rfl⟩

theorem Onward.trans (first : Onward s t) (second : Onward t u) : Onward s u where
  trees := first.trees.trans second.trees
  functions := Nat.le_trans first.functions second.functions
  classes := first.classes.trans second.classes
  modules := first.modules.trans second.modules

theorem Quiet.onward (quiet : Quiet s t) : Onward s t := { quiet with trees := quiet.cache ▸ List.prefix_rfl }

theorem onward_fetch (s : Session) (file : Path) : Onward s (s.fetch file).2 :=
  { Onward.refl s with trees := s.cache.prefix_trees_get file s.files }

theorem onward_fileEnded (s : Session) (depth : Nat) (file : Path) : Onward s (s.fileEnded depth file) := by
  unfold fileEnded
  split <;> exact { Onward.refl s with }

theorem onward_pushCall (s : Session) (key : CallKey) : Onward s (s.pushCall key) :=
  { Onward.refl s with functions := Nat.le_of_eq (Array.size_modify ..).symm }

theorem onward_popCall (s : Session) (key : CallKey) (result : Ty) : Onward s (s.popCall key result).2 :=
  { Onward.refl s with functions := Nat.le_of_eq (Array.size_modify ..).symm }

structure Gathers (s : Session) (events : List Event) (t : Session) : Prop where
  onward : Onward s t
  between : ∀ m ∈ through events, Onward s m ∧ Onward m t

namespace Gathers

theorem nil (s : Session) : Gathers s [] s := ⟨.refl s, by simp⟩

theorem visit (node : NodeRef) (scope : ScopeId) (s : Session) :
    Gathers s [.visit node scope s] s := ⟨.refl s, by simp [Event.sessions, Onward.refl]⟩

theorem change (step : Onward s t) : Gathers s [.change s t] t :=
  ⟨step, by simp [Event.sessions, Onward.refl, step]⟩

theorem append {first second : List Event}
    (before : Gathers s first t) (after : Gathers t second u) : Gathers s (first ++ second) u := by
  refine ⟨before.onward.trans after.onward, ?_⟩
  rw [through_append, List.forall_mem_append]
  constructor
  · intro m mem
    obtain ⟨earlier, later⟩ := before.between m mem
    exact ⟨earlier, later.trans after.onward⟩
  · intro m mem
    obtain ⟨earlier, later⟩ := after.between m mem
    exact ⟨before.onward.trans earlier, later⟩

end Gathers

theorem Course.gathers (course : Course p o s events t) : Gathers s events t := by
  induction course with
  | nil s => exact .nil s
  | append _ _ first second => exact first.append second
  | quiet quiet => exact .change quiet.onward
  | part _ _ visit => exact visit
  | @refused s node scope => exact (Gathers.visit node scope s).append (.change { Onward.refl s with })
  | @passed s node scope => exact .visit node scope s
  | @inside s t _ node scope _ _ _ inner =>
    have begun : Onward s { s with depth := s.depth + 1 } := { Onward.refl s with }
    have last : Onward t { t with depth := t.depth - 1 } := { Onward.refl t with }
    exact (((Gathers.visit node scope s).append (.change begun)).append inner).append (.change last)
  | @unread _ s file => exact (Gathers.change (s.onward_fetch file)).append (.change { Onward.refl _ with })
  | @oversized _ s file =>
    exact (Gathers.change (s.onward_fetch file)).append (.change { Onward.refl _ with })
  | @load _ s t file _ _ _ _ _ _ _ root =>
    have found : Onward (s.fetch file).2 (s.found file) := { Onward.refl _ with }
    have opened : Onward (s.found file) ((s.found file).openFile file) := { Onward.refl _ with }
    have closed : Onward t (t.closeFile s.cwd file) := { Onward.refl t with }
    have ended := (t.closeFile s.cwd file).onward_fileEnded s.depth file
    have begun := (Gathers.change (s.onward_fetch file)).append
      ((Gathers.change found).append (.change opened))
    exact (begun.append root).append ((Gathers.change closed).append (.change ended))
  | @call _ s t key _ result _ _ _ _ body =>
    exact ((Gathers.change (s.onward_pushCall key)).append body).append
      (.change (t.onward_popCall key result))

end Session

end RubyInfer
