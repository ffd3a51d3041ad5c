import RubyInfer.Proofs.Session.Members
import RubyInfer.Proofs.Store.Twin

/-!
# Two sessions alike

A `Pairing` says in which way two sessions are compared: by which offsets, on which files and words,
and how their trees are kept. Of the trees it is only asked that both sessions find the same files
and get linked trees for them. `Session.Twin` says that two sessions are alike in this way, and the
lemmas after it that what one session answers the other one answers as well.
-/

namespace RubyInfer

open Relator

/-! ## Arrays -/

/-- The entries of the second array are ahead by `k`; only some need to correspond. -/
structure ArrayTwin {α β : Type} (k : Nat) (kept : Nat → Prop) (rel : α → β → Prop) (a : Array α)
    (b : Array β) : Prop where
  size : b.size = a.size + k
  get (i : Nat) : kept i → Option.Rel rel a[i]? b[i + k]?

namespace ArrayTwin

variable {α β : Type} {k : Nat} {kept : Nat → Prop} {rel wide : α → β → Prop} {a : Array α} {b : Array β}

theorem imp (twin : ArrayTwin k kept rel a b) (each : ∀ x y, rel x y → wide x y) :
    ArrayTwin k kept wide a b where
  size := twin.size
  get i known := by
    have entry := twin.get i known
    generalize a[i]? = x, b[i + k]? = y at entry
    cases entry with
    | none => exact .none
    | some related => exact .some (each _ _ related)

theorem taken (b : Array β) : ArrayTwin b.size kept rel #[] b where
  size := (Nat.zero_add _).symm
  get i _ := by
    have outside : b.size ≤ i + b.size := Nat.le_add_left ..
    rw [Array.getElem?_eq_none outside]
    exact .none

theorem found (twin : ArrayTwin k kept rel a b) {i : Nat} (known : kept i) {x : α} (here : a[i]? = some x) :
    ∃ y, b[i + k]? = some y ∧ rel x y := by
  have entry := twin.get i known
  rw [here] at entry
  generalize b[i + k]? = y at entry
  cases entry with
  | some related => exact ⟨_, rfl, related⟩

theorem push (twin : ArrayTwin k kept rel a b) {x : α} {y : β} (related : rel x y) :
    ArrayTwin k kept rel (a.push x) (b.push y) where
  size := by simp [twin.size]; omega
  get i known := by
    have entry := twin.get i known
    rw [Array.getElem?_push, Array.getElem?_push, twin.size]
    by_cases last : i = a.size
    · simpa [last] using related
    · have other : i + k ≠ a.size + k := by omega
      simpa [last, other] using entry

theorem modify (twin : ArrayTwin k kept rel a b) (id : Nat) {f : α → α} {g : β → β}
    (each : kept id → ∀ x y, rel x y → rel (f x) (g y)) :
    ArrayTwin k kept rel (a.modify id f) (b.modify (id + k) g) where
  size := by simp [twin.size]
  get i known := by
    have entry := twin.get i known
    rw [Array.getElem?_modify, Array.getElem?_modify]
    by_cases here : id = i
    · subst here
      generalize a[id]? = x, b[id + k]? = y at entry
      cases entry with
      | none => simp
      | some related => simpa using each known _ _ related
    · have other : id + k ≠ i + k := by omega
      simpa [here, other] using entry

theorem findIdx?_eq (twin : ArrayTwin k kept rel a b) (all : ∀ i, kept i) {p : α → Bool} {q : β → Bool}
    (same : ∀ x y, rel x y → q y = p x) (passed : ∀ i < k, ∀ y ∈ b[i]?, q y = false) :
    b.findIdx? q = (a.findIdx? p).map (· + k) := by
  have entry (i : Nat) := twin.get i (all i)
  cases found : a.findIdx? p with
  | none =>
    rw [Array.findIdx?_eq_none_iff] at found
    refine Array.findIdx?_eq_none_iff.mpr fun y mem => ?_
    obtain ⟨i, inRange, rfl⟩ := Array.getElem_of_mem mem
    have here : b[i]? = some b[i] := Array.getElem?_eq_getElem inRange
    by_cases low : i < k
    · exact passed i low _ here
    · have moved := entry (i - k)
      rw [Nat.sub_add_cancel (Nat.le_of_not_lt low), here] at moved
      generalize there : a[i - k]? = x at moved
      cases moved with
      | some related => rw [same _ _ related, found _ (Array.mem_of_getElem? there)]
  | some id =>
    obtain ⟨inRange, hit, first⟩ := Array.findIdx?_eq_some_iff_getElem.mp found
    have here : a[id]? = some a[id] := Array.getElem?_eq_getElem inRange
    have inRange' : id + k < b.size := by rw [twin.size]; omega
    have moved := entry id
    rw [here, Array.getElem?_eq_getElem inRange'] at moved
    refine Array.findIdx?_eq_some_iff_getElem.mpr ⟨inRange', ?_, fun j (before : j < id + k) => ?_⟩
    · cases moved with
      | some related => rw [same _ _ related, hit]
    · have there : b[j]? = some b[j] := Array.getElem?_eq_getElem _
      by_cases low : j < k
      · rw [passed j low _ there]
        simp
      · have moved := entry (j - k)
        have earlier : j - k < id := by omega
        rw [Nat.sub_add_cancel (Nat.le_of_not_lt low), there,
          Array.getElem?_eq_getElem (Nat.lt_trans earlier inRange)] at moved
        cases moved with
        | some related =>
          rw [same _ _ related]
          exact first (j - k) earlier

end ArrayTwin

/-! ## Records -/

def Options.Alike (o o' : Options) : Prop :=
  o' = { o with cacheDir := o'.cacheDir, diskCache := o'.diskCache, prewarm := o'.prewarm }

def Ast.Speaks (text : String → Prop) (ast : Ast) : Prop :=
  ∀ id, (∀ value, ast.kind id = .str value → text value) ∧
    ∀ name, ast.kind id = .name name .plain → isConstant name = true → text (snakeCase name)

namespace Frame

variable (F : Frame)

structure ScopeTwin (size : Nat) (i i' : ScopeId) : Prop where
  inRange : i < size
  eq : i' = F.scope i

structure FunctionTwin (i i' : FunctionId) : Prop where
  eq : i' = i + F.offsets.functions
  spoken : F.vocabulary.function i

theorem FunctionTwin.ty {F : Frame} {i i' : FunctionId} (known : F.FunctionTwin i i') :
    F.TyTwin (.function i) (.function i') := by
  rw [known.eq]
  exact .function known.spoken

inductive OwnerTwin : Owner → Owner → Prop
  | classObj {c : ClassId} (spoken : F.vocabulary.classObj c) :
      OwnerTwin (.classObj c) (.classObj (c + F.offsets.classes))
  | moduleObj {m : ModuleId} (spoken : F.vocabulary.moduleObj m) :
      OwnerTwin (.moduleObj m) (.moduleObj (m + F.offsets.modules))

end Frame

structure FunctionRecord.Twin (F : Frame) (L : Links) (size : Nat) (f f' : FunctionRecord) : Prop where
  node : NodeRef.Twin F L f.node f'.node
  name : f'.name = f.name
  qname : f'.qname = f.qname
  env : F.ScopeTwin size f.env f'.env
  owner : Option.Rel F.OwnerTwin f.owner f'.owner
  classLevel : f'.classLevel = f.classLevel
  isLambda : f'.isLambda = f.isLambda
  called : f'.called = f.called
  frame : Option.Rel (F.ScopeTwin size) f.frame f'.frame
  active : f'.active = f.active

structure ClassRecord.Twin (F : Frame) (size : Nat) (c c' : ClassRecord) : Prop where
  name : c'.name = c.name
  qname : c'.qname = c.qname
  scope : F.ScopeTwin size c.scope c'.scope
  instances : F.ScopeTwin size c.instances c'.instances
  base : c'.base = c.base.map (· + F.offsets.classes)
  mixins : c'.mixins = c.mixins.map (· + F.offsets.modules)

structure ModuleRecord.Twin (F : Frame) (size : Nat) (m m' : ModuleRecord) : Prop where
  name : m'.name = m.name
  qname : m'.qname = m.qname
  scope : F.ScopeTwin size m.scope m'.scope
  mixins : m'.mixins = m.mixins.map (· + F.offsets.modules)

structure CallKey.Twin (F : Frame) (k k' : CallKey) : Prop where
  function : F.FunctionTwin k.function k'.function
  receiver : F.TyTwin k.receiver k'.receiver
  args : List.Forall₂ F.TyTwin k.args k'.args

/-! ## Pairings -/

/-- A way to compare sessions, of which the first is watched: it is only followed as long as `ok`
holds of it. -/
structure Pairing extends Frame where
  /-- The functions of the first session that are older than what is compared. -/
  before : Nat
  /-- The names of classes and modules that only the second session has. -/
  staleClass : String → Prop
  staleModule : String → Prop
  suited : Options → Prop
  /-- What may be loaded, and where files are looked for. -/
  target : Path → Prop
  place : Path → Prop
  ok : Session → Prop
  store : Links → Cache × FileTree → Cache × FileTree → Prop
  unique {L : Links} {c c' : Cache × FileTree} : store L c c' → BiUnique L
  trees {L : Links} {c c' : Cache × FileTree} {n n' : Nat} : store L c c' → L n n' →
      c'.1.trees[n']? = c.1.trees[n]?
  speaks {L : Links} {c c' : Cache × FileTree} {n n' : Nat} : store L c c' → L n n' →
      ∀ ast ∈ c.1.trees[n]?, ast.Speaks vocabulary.text
  clear {L : Links} {c c' : Cache × FileTree} : store L c c' → store L (c.1.clear, c.2) (c'.1.clear, c'.2)
  settle {L : Links} {c c' : Cache × FileTree} {path : Path} : store L c c' → target path →
      c'.2.settle path = c.2.settle path
  fetch {L : Links} {s s' : Session} {path : Path} :
    store L (s.cache, s.files) (s'.cache, s'.files) → target path → ok (s.fetch (s.files.settle path)).2 →
      source (s.files.settle path) ∧ ∃ L' : Links, (∀ i j, L i j → L' i j) ∧
        store L' ((s.fetch (s.files.settle path)).2.cache, (s.fetch (s.files.settle path)).2.files)
          ((s'.fetch (s.files.settle path)).2.cache, (s'.fetch (s.files.settle path)).2.files) ∧
        Option.Rel
          (fun n n' => L' n n' ∧ source
            ((s.fetch (s.files.settle path)).2.cache.trees[n]?.getD default).file ∧
            ∀ d ∈ (s.files.settle path).parent?, place d)
          (s.fetch (s.files.settle path)).1 (s'.fetch (s.files.settle path)).1
  find {L : Links} {s s' : Session} {name : String} :
    store L (s.cache, s.files) (s'.cache, s'.files) → s.options.Alike s'.options →
      suited s.options → s'.cwd = s.cwd → s'.projectDir = s.projectDir →
      (∀ d ∈ s.requireRoots, place d) → vocabulary.text name →
        s'.findRequired? (s'.requiredPath name) = s.findRequired? (s.requiredPath name) ∧
          ∀ path ∈ s.findRequired? (s.requiredPath name), target path
  classes {m : Session} {c : ClassId} {r : ClassRecord} : ok m → m.classes[c]? = some r →
      ¬ staleClass r.qname ∧ vocabulary.classObj c
  modules {m : Session} {id : ModuleId} {r : ModuleRecord} : ok m → m.modules[id]? = some r →
      ¬ staleModule r.qname ∧ vocabulary.moduleObj id
  functions {m : Session} {id : FunctionId} : ok m → before ≤ id → id < m.functions.size →
      vocabulary.function id

/-- How far a comparison has come: the trees that are linked, and how many scopes the first session
has. -/
structure Stage where
  links : Links
  scopes : Nat

structure Stage.Le (st st' : Stage) : Prop where
  links : ∀ i j, st.links i j → st'.links i j
  scopes : st.scopes ≤ st'.scopes

instance : LE Stage := ⟨Stage.Le⟩

theorem Stage.le_refl (st : Stage) : st ≤ st := ⟨fun _ _ linked => linked, Nat.le_refl _⟩

theorem Stage.le_trans {st₁ st₂ st₃ : Stage} (first : st₁ ≤ st₂) (second : st₂ ≤ st₃) : st₁ ≤ st₃ :=
  ⟨fun i j linked => second.links i j (first.links i j linked), Nat.le_trans first.scopes second.scopes⟩

structure Session.Twin (P : Pairing) (st : Stage) (s s' : Session) : Prop where
  options : s.options.Alike s'.options
  suited : P.suited s.options
  store : P.store st.links (s.cache, s.files) (s'.cache, s'.files)
  sized : s.scopes.size = st.scopes
  scopes : Scopes.Twin P.toFrame s.scopes s'.scopes
  registry : Registry.Twin P.toFrame st.links s.registry s'.registry
  functions : ArrayTwin P.offsets.functions P.vocabulary.function
      (FunctionRecord.Twin P.toFrame st.links st.scopes) s.functions s'.functions
  before : P.before ≤ s.functions.size
  functionAt : List.Forall₂ (fun e e' => NodeRef.Twin P.toFrame st.links e.1 e'.1 ∧
      P.FunctionTwin e.2 e'.2) s.functionAt s'.functionAt
  classes : ArrayTwin P.offsets.classes (fun _ => True) (ClassRecord.Twin P.toFrame st.scopes)
      s.classes s'.classes
  staleClasses : ∀ i < P.offsets.classes, ∀ c ∈ s'.classes[i]?, P.staleClass c.qname
  modules : ArrayTwin P.offsets.modules (fun _ => True) (ModuleRecord.Twin P.toFrame st.scopes)
      s.modules s'.modules
  staleModules : ∀ i < P.offsets.modules, ∀ m ∈ s'.modules[i]?, P.staleModule m.qname
  owners (i : Nat) : Option.Rel P.OwnerTwin (s.owners.lookup i) (s'.owners.lookup (P.scope i))
  callStack : List.Forall₂ (CallKey.Twin P.toFrame) s.callStack s'.callStack
  importStack : s'.importStack = s.importStack
  uncalled : List.Forall₂ P.FunctionTwin s.uncalled s'.uncalled
  returns : List.Forall₂ P.TyTwin s.returns s'.returns
  loaded : s'.loaded = s.loaded
  loadedFrom : ∀ f ∈ s.loaded.paths, P.source f
  failed : s'.failed = s.failed
  failedFrom : ∀ f ∈ s.failed.paths, P.source f
  diagnostics : s'.diagnostics = s.diagnostics
  reported : ∀ e ∈ s.diagnostics.byFile.entries, P.source e.1
  resolved : List.Forall₂ (NodeRef.Twin P.toFrame st.links) s.resolved s'.resolved
  unresolved : List.Forall₂ (NodeRef.Twin P.toFrame st.links) s.unresolved s'.unresolved
  /-- Nothing is looked for by its name outside of projects. -/
  autoloaded : s.projectDir ≠ none → s'.autoloaded = s.autoloaded
  staticContext : s'.staticContext = s.staticContext
  cwd : s'.cwd = s.cwd
  projectDir : s'.projectDir = s.projectDir
  depth : s'.depth = s.depth
  exhausted : s'.exhausted = s.exhausted
  calls : s'.calls = s.calls + P.offsets.calls
  phase : s'.phase = s.phase
  roots : ∀ d ∈ s.requireRoots, P.place d

namespace Session.Twin

variable {P : Pairing} {st : Stage} {s s' : Session} {ty ty' : Ty}

/-! ## Trees -/

section Nodes

variable {n n' : NodeRef} (twin : Twin P st s s') (node : NodeRef.Twin P.toFrame st.links n n')
include twin

theorem unique : BiUnique st.links := P.unique twin.store

include node

theorem tree_eq : s'.tree n' = s.tree n := by
  unfold tree
  rw [P.trees twin.store node.linked]

theorem kind_eq : s'.kind n' = s.kind n := by
  unfold kind
  rw [twin.tree_eq node, node.id]

theorem span_eq : s'.span n' = s.span n := by
  unfold span
  rw [twin.tree_eq node, node.id]

theorem nameOf?_eq : s'.nameOf? n' = s.nameOf? n := by
  unfold nameOf?
  rw [twin.tree_eq node, node.id]

theorem speaks :
    (∀ value, s.kind n = .str value → P.vocabulary.text value) ∧
      ∀ name, s.kind n = .name name .plain → isConstant name = true → P.vocabulary.text (snakeCase name) := by
  unfold kind tree
  cases here : s.cache.trees[n.tree]? with
  | none =>
    have blank : (default : Ast).kind n.id = .void := by
      simp [Ast.kind, show (default : Ast).nodes = #[] from rfl]
    simp [blank]
  | some ast => exact P.speaks twin.store node.linked ast here n.id

theorem nameNode?_rel (locator : NodeId) :
    Option.Rel (NodeRef.Twin P.toFrame st.links) (s.nameNode? n locator) (s'.nameNode? n' locator) := by
  unfold nameNode?
  rw [twin.tree_eq node]
  cases (s.tree n).locatorName? locator with
  | none => exact .none
  | some id => exact .some (node.sibling id)

theorem selfNode_twin (locator : Option NodeId) :
    NodeRef.Twin P.toFrame st.links (s.selfNode n locator) (s'.selfNode n' locator) := by
  unfold selfNode
  rw [twin.tree_eq node]
  split
  · exact node.sibling _
  · exact node

theorem partType_twin {ty ty' : Ty} (typed : P.TyTwin ty ty') :
    P.TyTwin (s.partType n ty) (s'.partType n' ty') := by
  unfold partType
  rw [twin.kind_eq node]
  split
  · exact typed.listOf
  · exact typed

theorem inProject_eq : s'.inProject n' = s.inProject n := by
  unfold inProject
  rw [twin.projectDir, node.file]

theorem functionOf?_rel : Option.Rel P.FunctionTwin (s.functionOf? n) (s'.functionOf? n') := by
  have entries := twin.functionAt
  unfold functionOf?
  generalize s.functionAt = es, s'.functionAt = es' at entries
  induction entries with
  | nil => exact .none
  | @cons e e' es es' first _ ih =>
    have same : (e'.1.tree = n'.tree ∧ e'.1.id = n'.id) ↔ (e.1.tree = n.tree ∧ e.1.id = n.id) := by
      have trees : e.1.tree = n.tree ↔ e'.1.tree = n'.tree := rel_eq twin.unique first.1.linked node.linked
      rw [trees, first.1.id, node.id]
    simp only [List.find?_cons, same]
    split
    · exact .some first.2
    · exact ih

end Nodes

/-! ## Records -/

section

variable (twin : Twin P st s s')
include twin

theorem classRecord_twin (c : Nat) :
    ClassRecord.Twin P.toFrame st.scopes (s.classRecord c) (s'.classRecord (c + P.offsets.classes)) := by
  have entry := twin.classes.get c trivial
  have global : P.ScopeTwin st.scopes Scopes.global Scopes.global :=
    ⟨twin.sized ▸ twin.scopes.global, P.scope_global.symm⟩
  unfold classRecord
  generalize s.classes[c]? = x, s'.classes[c + P.offsets.classes]? = y at entry
  cases entry with
  | none => exact ⟨rfl, rfl, global, global, rfl, rfl⟩
  | some related => exact related

theorem moduleRecord_twin (m : Nat) :
    ModuleRecord.Twin P.toFrame st.scopes (s.moduleRecord m) (s'.moduleRecord (m + P.offsets.modules)) := by
  have entry := twin.modules.get m trivial
  have global : P.ScopeTwin st.scopes Scopes.global Scopes.global :=
    ⟨twin.sized ▸ twin.scopes.global, P.scope_global.symm⟩
  unfold moduleRecord
  generalize s.modules[m]? = x, s'.modules[m + P.offsets.modules]? = y at entry
  cases entry with
  | none => exact ⟨rfl, rfl, global, rfl⟩
  | some related => exact related

theorem classNamed?_eq {qname : String} (current : ¬ P.staleClass qname) :
    s'.classNamed? qname = (s.classNamed? qname).map (· + P.offsets.classes) := by
  apply twin.classes.findIdx?_eq fun _ => trivial
  · intro c c' related
    rw [related.qname]
  · intro i old c there
    have stale := twin.staleClasses i old c there
    apply decide_eq_false
    rintro rfl
    exact current stale

theorem moduleNamed?_eq {qname : String} (current : ¬ P.staleModule qname) :
    s'.moduleNamed? qname = (s.moduleNamed? qname).map (· + P.offsets.modules) := by
  apply twin.modules.findIdx?_eq fun _ => trivial
  · intro m m' related
    rw [related.qname]
  · intro i old m there
    have stale := twin.staleModules i old m there
    apply decide_eq_false
    rintro rfl
    exact current stale

section Functions

variable {id id' : FunctionId} (known : P.FunctionTwin id id')
include known

theorem function_twin (there : id < s.functions.size) :
    FunctionRecord.Twin P.toFrame st.links st.scopes (s.function id) (s'.function id') := by
  have entry := twin.functions.get id known.spoken
  unfold function
  rw [known.eq]
  rw [Array.getElem?_eq_getElem there] at entry ⊢
  generalize s'.functions[id + P.offsets.functions]? = y at entry
  cases entry with
  | some related => exact related

theorem function_cases :
    FunctionRecord.Twin P.toFrame st.links st.scopes (s.function id) (s'.function id') ∨
      s.function id = default ∧ s'.function id' = default := by
  by_cases there : id < s.functions.size
  · exact .inl (twin.function_twin known there)
  · refine .inr ⟨?_, ?_⟩
    · simp [function, Array.getElem?_eq_none (Nat.le_of_not_lt there)]
    · have beyond : s'.functions.size ≤ id' := by
        rw [twin.functions.size, known.eq]
        exact Nat.add_le_add_right (Nat.le_of_not_lt there) _
      simp [function, Array.getElem?_eq_none beyond]

theorem called_eq : (s'.function id').called = (s.function id).called := by
  rcases twin.function_cases known with related | ⟨left, right⟩
  · exact related.called
  · rw [left, right]

theorem active_eq : (s'.function id').active = (s.function id).active := by
  rcases twin.function_cases known with related | ⟨left, right⟩
  · exact related.active
  · rw [left, right]

theorem defaultSelf_twin : P.TyTwin (s.defaultSelf id) (s'.defaultSelf id') := by
  unfold defaultSelf
  rcases twin.function_cases known with related | ⟨left, right⟩
  · have owner := related.owner
    dsimp only
    rw [related.classLevel]
    generalize (s.function id).owner = x, (s'.function id').owner = y at owner
    cases owner with
    | none => exact .unknown
    | some owned =>
      cases owned with
      | moduleObj spoken => exact .moduleObj spoken
      | classObj spoken =>
        dsimp only
        split
        · exact .classObj spoken
        · exact .inst spoken
  · rw [left, right]
    exact .unknown

end Functions

end

theorem functionTwin_biUnique (F : Frame) : BiUnique F.FunctionTwin := by
  constructor
  · intro a b c first second
    exact Nat.add_right_cancel (first.eq.symm.trans second.eq)
  · intro a b c first second
    rw [first.eq, second.eq]

theorem callKey_biUnique (F : Frame) : BiUnique (CallKey.Twin F) := by
  have types : BiUnique F.TyTwin :=
    ⟨fun _ _ _ first second => (first.eq_iff second).mp rfl, fun _ _ _ first second =>
      (first.eq_iff second).mpr rfl⟩
  constructor
  · intro a b c first second
    cases a
    cases b
    simp only [CallKey.mk.injEq]
    exact ⟨(functionTwin_biUnique F).1 first.function second.function, types.1 first.receiver second.receiver,
      types.forall₂.1 first.args second.args⟩
  · intro a b c first second
    cases b
    cases c
    simp only [CallKey.mk.injEq]
    exact ⟨(functionTwin_biUnique F).2 first.function second.function, types.2 first.receiver second.receiver,
      types.forall₂.2 first.args second.args⟩

theorem refuses_eq (twin : Twin P st s s') {key key' : CallKey} (same : CallKey.Twin P.toFrame key key') :
    s'.refuses key' = s.refuses key := by
  have stack : s'.callStack.contains key' = s.callStack.contains key := by
    rw [Bool.eq_iff_iff, List.contains_iff_mem, List.contains_iff_mem]
    exact (List.rel_mem (callKey_biUnique _) same twin.callStack).symm
  have absent : s'.functions.size ≤ key'.function ↔ s.functions.size ≤ key.function := by
    rw [twin.functions.size, same.function.eq]
    exact Nat.add_le_add_iff_right
  have limit : s'.options.maxRecursion = s.options.maxRecursion := by rw [twin.options]
  unfold refuses
  simp only [absent, twin.exhausted, stack, twin.active_eq same.function, limit]

/-! ## Names -/

theorem findSome?_members {α β : Type} {rel : α → β → Prop} (typed : P.TyTwin ty ty')
    {f : Ty → Option α} {g : Ty → Option β}
    (each : ∀ t t', P.TyTwin t t' → Option.Rel rel (f t) (g t')) :
    Option.Rel rel (ty.members.findSome? f) (ty'.members.findSome? g) := by
  have members := typed.members
  generalize ty.members = ts, ty'.members = ts' at members
  induction members with
  | nil => exact .none
  | cons first _ ih =>
    rw [List.findSome?_cons, List.findSome?_cons]
    have picked := each _ _ first
    generalize f _ = x, g _ = y at picked
    cases picked with
    | none => exact ih
    | some related => exact .some related

section

variable (twin : Twin P st s s')
include twin

theorem typeOf_twin (ids : List BindingId) : P.TyTwin (s.typeOf ids) (s'.typeOf (ids.map P.binding)) := by
  apply Ty.Twin.makeUnion
  induction ids with
  | nil => exact .nil
  | cons id ids ih =>
    have slot := twin.registry.get? id
    rw [List.map_cons, List.filterMap_cons, List.filterMap_cons]
    generalize s.registry.get? id = x, s'.registry.get? (P.binding id) = y at slot
    cases slot with
    | none => exact ih
    | some related => exact .cons related.ty ih

theorem isCallable_eq (ids : List BindingId) : s'.isCallable (ids.map P.binding) = s.isCallable ids := by
  unfold isCallable
  rw [List.any_map]
  congr 1
  funext id
  have slot := twin.registry.get? id
  simp only [Function.comp_apply]
  generalize s.registry.get? id = x, s'.registry.get? (P.binding id) = y at slot
  cases slot with
  | none => rfl
  | some related => simp [related.kind]

theorem lookupName?_eq (i : ScopeId) (name : String) :
    s'.lookupName? (P.scope i) name = (s.lookupName? i name).map (·.map P.binding) := by
  unfold lookupName?
  rw [twin.staticContext]
  dsimp only
  rw [twin.scopes.lookup?_eq, twin.scopes.lookup?_eq, Option.map_or]

theorem selfType_twin (i : ScopeId) : P.TyTwin (s.selfType i) (s'.selfType (P.scope i)) := by
  unfold selfType
  rw [twin.scopes.lookup?_eq]
  cases s.scopes.lookup? i selfName .object with
  | none => exact .unknown
  | some ids => exact twin.typeOf_twin ids

theorem selfClass?_rel (i : ScopeId) :
    Option.Rel (fun c c' => c' = c + P.offsets.classes) (s.selfClass? i) (s'.selfClass? (P.scope i)) := by
  apply findSome?_members (twin.selfType_twin i)
  rintro t _ ⟨rfl, -⟩
  cases t <;> simp [Ty.shift, classOf?]

theorem memberScope?_rel (typed : P.TyTwin ty ty') :
    Option.Rel (P.ScopeTwin st.scopes) (s.memberScope? ty) (s'.memberScope? ty') := by
  apply findSome?_members typed
  rintro t _ ⟨rfl, -⟩
  cases t with
  | classObj c => simpa [Ty.shift] using (twin.classRecord_twin c).scope
  | inst c => simpa [Ty.shift] using (twin.classRecord_twin c).scope
  | moduleObj m => simpa [Ty.shift] using (twin.moduleRecord_twin m).scope
  | _ => simp [Ty.shift]

theorem memberScope_twin (typed : P.TyTwin ty ty') {i i' : ScopeId} (scope : P.ScopeTwin st.scopes i i') :
    P.ScopeTwin st.scopes ((s.memberScope? ty).getD i) ((s'.memberScope? ty').getD i') := by
  have found := twin.memberScope?_rel typed
  generalize s.memberScope? ty = x, s'.memberScope? ty' = y at found
  cases found with
  | none => exact scope
  | some inner => exact inner

end

/-! ## Members -/

/-- What a look-up finds and where it has been, in the numbers of the second session. -/
def answer (P : Pairing) (k : Nat) (a : Option (List BindingId) × List Nat) :
    Option (List BindingId) × List Nat :=
  (a.1.map (·.map P.binding), a.2.map (· + k))

theorem contains_map_add (k : Nat) (seen : List Nat) (n : Nat) :
    (seen.map (· + k)).contains (n + k) = seen.contains n := by
  rw [Bool.eq_iff_iff, List.contains_iff_mem, List.contains_iff_mem]
  exact List.mem_map_of_injective (fun _ _ => Nat.add_right_cancel)

theorem firstVisited_eq {k : Nat} {ask ask' : List Nat → Nat → Option (List BindingId) × List Nat}
    (same : ∀ seen x, ask' (seen.map (· + k)) (x + k) = answer P k (ask seen x)) (seen xs : List Nat) :
    firstVisited ask' (seen.map (· + k)) (xs.map (· + k)) = answer P k (firstVisited ask seen xs) := by
  induction xs generalizing seen with
  | nil => rfl
  | cons x xs ih =>
    unfold firstVisited
    rw [List.map_cons]
    dsimp only
    rw [same]
    rcases ask seen x with ⟨_ | found, next⟩
    · exact ih next
    · rfl

section

variable (twin : Twin P st s s')
include twin

theorem tableEntry?_eq (i : ScopeId) (name : String) (tiers : List Tier) :
    s'.tableEntry? (P.scope i) name tiers = (s.tableEntry? i name tiers).map (·.map P.binding) := by
  unfold tableEntry?
  induction tiers with
  | nil => rfl
  | cons tier tiers ih =>
    rw [List.findSome?_cons, List.findSome?_cons, twin.scopes.local?_eq]
    cases s.scopes.local? i name tier with
    | none => exact ih
    | some ids => rfl

theorem moduleMemberWithin_eq (name : String) (tiers : List Tier) (bound : Nat) (seen : List Nat) (m : Nat) :
    s'.moduleMemberWithin name tiers bound (seen.map (· + P.offsets.modules)) (m + P.offsets.modules) =
      answer P P.offsets.modules (s.moduleMemberWithin name tiers bound seen m) := by
  induction bound generalizing seen m with
  | zero => rfl
  | succ bound ih =>
    have record := twin.moduleRecord_twin m
    unfold moduleMemberWithin
    rw [contains_map_add]
    split
    · rfl
    · dsimp only
      rw [record.scope.eq, twin.tableEntry?_eq, record.mixins]
      cases s.tableEntry? (s.moduleRecord m).scope name tiers with
      | some ids => rfl
      | none => exact firstVisited_eq ih (m :: seen) _

theorem moduleMember?_eq (m : Nat) (name : String) (tiers : List Tier) :
    s'.moduleMember? (m + P.offsets.modules) name tiers =
      (s.moduleMember? m name tiers).map (·.map P.binding) := by
  have enough (more : Nat) : unseen s.modules.size [] < s.modules.size + more + 1 :=
    Nat.lt_of_le_of_lt (unseen_le_size ..) (by omega)
  have settled := (s.settles_moduleMember name tiers m (enough 0)).unique
    (s.settles_moduleMember name tiers m (enough P.offsets.modules))
  have moved := twin.moduleMemberWithin_eq name tiers (s.modules.size + P.offsets.modules + 1) [] m
  rw [← settled] at moved
  unfold moduleMember?
  rw [twin.modules.size]
  exact congrArg Prod.fst moved

theorem ownMember?_eq (side : Side) (c : Nat) (name : String) :
    s'.ownMember? side (c + P.offsets.classes) name = (s.ownMember? side c name).map (·.map P.binding) := by
  have record := twin.classRecord_twin c
  unfold ownMember?
  rw [record.scope.eq, record.instances.eq]
  cases side with
  | ofInstance =>
    dsimp only
    rw [twin.tableEntry?_eq, twin.tableEntry?_eq, Option.map_or]
  | ofClass => exact twin.tableEntry?_eq ..

theorem stationMember?_eq (side : Side) (c : Nat) (name : String) :
    s'.stationMember? side (c + P.offsets.classes) name =
      (s.stationMember? side c name).map (·.map P.binding) := by
  have mixed (ms : List Nat) :
      (ms.map (· + P.offsets.modules)).findSome? (fun m => s'.moduleMember? m name side.tiers) =
        (ms.findSome? (fun m => s.moduleMember? m name side.tiers)).map (·.map P.binding) := by
    induction ms with
    | nil => rfl
    | cons m ms ih =>
      rw [List.map_cons, List.findSome?_cons, List.findSome?_cons, twin.moduleMember?_eq]
      cases s.moduleMember? m name side.tiers with
      | none => exact ih
      | some ids => rfl
  unfold stationMember?
  rw [twin.ownMember?_eq, (twin.classRecord_twin c).mixins, mixed, Option.map_or]

theorem classMemberWithin_eq (side : Side) (name : String) (bound : Nat) (seen : List Nat) (c : Nat) :
    s'.classMemberWithin side name bound (seen.map (· + P.offsets.classes)) (c + P.offsets.classes) =
      answer P P.offsets.classes (s.classMemberWithin side name bound seen c) := by
  induction bound generalizing seen c with
  | zero => rfl
  | succ bound ih =>
    unfold classMemberWithin
    rw [contains_map_add]
    split
    · rfl
    · dsimp only
      rw [twin.stationMember?_eq, (twin.classRecord_twin c).base]
      cases s.stationMember? side c name with
      | some ids => rfl
      | none =>
        cases (s.classRecord c).base with
        | none => rfl
        | some b => exact ih (c :: seen) b

theorem classMember_eq (side : Side) (name : String) (seen : List Nat) (c : Nat) :
    s'.classMember side name (seen.map (· + P.offsets.classes)) (c + P.offsets.classes) =
      answer P P.offsets.classes (s.classMember side name seen c) := by
  have enough (more : Nat) : unseen s.classes.size seen < s.classes.size + more + 1 :=
    Nat.lt_of_le_of_lt (unseen_le_size ..) (by omega)
  have settled := (s.settles_classMember side name c (enough 0)).unique
    (s.settles_classMember side name c (enough P.offsets.classes))
  unfold classMember
  rw [twin.classes.size, twin.classMemberWithin_eq, ← settled]

theorem memberOf_eq (name : String) (seen : List Nat) (typed : P.TyTwin ty ty') :
    s'.memberOf name (seen.map (· + P.offsets.classes)) ty' =
      answer P P.offsets.classes (s.memberOf name seen ty) := by
  obtain ⟨rfl, -⟩ := typed
  cases ty with
  | inst c => simpa [Ty.shift, memberOf] using twin.classMember_eq .ofInstance name seen c
  | classObj c => simpa [Ty.shift, memberOf] using twin.classMember_eq .ofClass name seen c
  | moduleObj m => simp [Ty.shift, memberOf, twin.moduleMember?_eq, answer]
  | _ => simp [Ty.shift, memberOf, answer]

theorem collectMembers_eq (name : String) (seen : List Nat) (out : List BindingId) {ts ts' : List Ty}
    (typed : List.Forall₂ P.TyTwin ts ts') :
    s'.collectMembers name (seen.map (· + P.offsets.classes)) (out.map P.binding) ts' =
      (s.collectMembers name seen out ts).map P.binding := by
  induction typed generalizing seen out with
  | nil => rfl
  | @cons t t' ts ts' first _ ih =>
    unfold collectMembers
    rw [twin.memberOf_eq name seen first]
    rcases s.memberOf name seen t with ⟨_ | found, next⟩
    · exact ih next out
    · have grown := Registry.foldl_addNew_map P.toFrame found out
      simp only [answer, Option.map_some, Option.getD_some, grown]
      exact ih next _

theorem lookupMember?_eq (typed : P.TyTwin ty ty') (name : String) :
    s'.lookupMember? ty' name = (s.lookupMember? ty name).map (·.map P.binding) := by
  have members : s'.collectMembers name [] [] ty'.members =
      (s.collectMembers name [] [] ty.members).map P.binding :=
    twin.collectMembers_eq name [] [] typed.members
  unfold lookupMember?
  rw [members]
  cases s.collectMembers name [] [] ty.members with
  | nil => rfl
  | cons id ids => rfl

/-! ## Identifiers -/

theorem variableMember?_eq (i : ScopeId) (id : String) (table : ClassRecord → ScopeId)
    (same : ∀ c c', ClassRecord.Twin P.toFrame st.scopes c c' → table c' = P.scope (table c)) :
    s'.variableMember? (P.scope i) id table = (s.variableMember? i id table).map (·.map P.binding) := by
  have own := twin.selfClass?_rel i
  unfold variableMember?
  generalize s.selfClass? i = x, s'.selfClass? (P.scope i) = y at own
  cases own with
  | none => rfl
  | @some c c' moved =>
    subst moved
    show s'.scopes.local? (table (s'.classRecord (c + P.offsets.classes))) id .object = _
    rw [same _ _ (twin.classRecord_twin c), twin.scopes.local?_eq]
    rfl

theorem lookupAround?_eq (i : ScopeId) (id : String) :
    s'.lookupAround? (P.scope i) id = (s.lookupAround? i id).map (·.map P.binding) := by
  unfold lookupAround?
  rw [twin.lookupName?_eq]
  cases s.lookupName? i id with
  | some ids => rfl
  | none =>
    dsimp only [Option.map_none]
    split
    · rfl
    · exact twin.lookupMember?_eq (twin.selfType_twin i) id

theorem resolveName?_eq (i : ScopeId) (id : String) (kind : NameKind) :
    s'.resolveName? (P.scope i) id kind = (s.resolveName? i id kind).map (·.map P.binding) := by
  unfold resolveName?
  cases kind with
  | gvar =>
    have global := twin.scopes.local?_eq Scopes.global id .object
    rwa [P.scope_global] at global
  | ivar =>
    dsimp only
    rw [twin.variableMember?_eq i id ClassRecord.instances (fun _ _ record => record.instances.eq),
      twin.lookupAround?_eq, Option.map_or]
  | cvar =>
    dsimp only
    rw [twin.variableMember?_eq i id ClassRecord.scope (fun _ _ record => record.scope.eq),
      twin.lookupAround?_eq, Option.map_or]
  | plain => exact twin.lookupAround?_eq i id

/-! ## Scopes -/

omit twin in
theorem blockChain_subset (s : Session) (chain : List ScopeId) : s.blockChain chain ⊆ chain := by
  induction chain with
  | nil => exact List.Subset.refl _
  | cons i rest ih =>
    unfold blockChain
    split
    · exact List.cons_subset_cons i ih
    · simp

theorem ownerOf?_rel (i : ScopeId) : Option.Rel P.OwnerTwin (s.ownerOf? i) (s'.ownerOf? (P.scope i)) :=
  twin.owners i

theorem enclosingOwner?_rel (i : ScopeId) :
    Option.Rel P.OwnerTwin (s.enclosingOwner? i) (s'.enclosingOwner? (P.scope i)) := by
  unfold enclosingOwner?
  rw [twin.scopes.chain_eq]
  induction s.scopes.chain i with
  | nil => exact .none
  | cons j rest ih =>
    rw [List.map_cons, List.findSome?_cons, List.findSome?_cons]
    have here := twin.ownerOf?_rel j
    generalize s.ownerOf? j = x, s'.ownerOf? (P.scope j) = y at here
    cases here with
    | none => exact ih
    | some owned => exact .some owned

theorem blockChain_eq (chain : List ScopeId) :
    s'.blockChain (chain.map P.scope) = (s.blockChain chain).map P.scope := by
  induction chain with
  | nil => rfl
  | cons i rest ih =>
    rw [List.map_cons]
    unfold blockChain
    rw [(twin.scopes.get i).kind]
    split
    · rw [List.map_cons, ih]
    · rfl

theorem le_of_mem_chainWithin (bound i : Nat) : ∀ j ∈ s.scopes.chainWithin bound i, j ≤ i := by
  induction bound generalizing i with
  | zero => exact fun _ mem => nomatch mem
  | succ bound ih =>
    unfold Scopes.chainWithin
    split
    · rename_i p around
      intro j mem
      rcases List.mem_cons.mp mem with rfl | outer
      · exact Nat.le_refl _
      · exact Nat.le_trans (ih p j outer) (Nat.le_of_lt (twin.scopes.parents i p around))
    · simp

theorem localScope_twin {i i' : ScopeId} (scope : P.ScopeTwin st.scopes i i') (name : String) :
    P.ScopeTwin st.scopes (s.localScope i name) (s'.localScope i' name) := by
  obtain ⟨inRange, rfl⟩ := scope
  unfold localScope
  dsimp only
  rw [twin.scopes.chain_eq, twin.blockChain_eq, List.find?_map]
  have same : (fun i => (s'.scopes.local? i name .object).isSome && decide (name ≠ blockName)) ∘ P.scope =
      fun i => (s.scopes.local? i name .object).isSome && decide (name ≠ blockName) := by
    funext i
    simp [twin.scopes.local?_eq]
  rw [same]
  cases found : (s.blockChain (s.scopes.chain i)).find? _ with
  | none => exact ⟨inRange, rfl⟩
  | some j =>
    have mem := blockChain_subset s _ (List.mem_of_find?_eq_some found)
    exact ⟨Nat.lt_of_le_of_lt (twin.le_of_mem_chainWithin _ i j mem) inRange, rfl⟩

end

end Session.Twin

end RubyInfer
