import RubyInfer.Proofs.Session.Elsewhere
import RubyInfer.Proofs.Session.Growth
import RubyInfer.Proofs.Session.Shown

/-!
# Reloading a file

A session that knew nothing but one file has nothing left once the file is removed, apart from
numbers that are taken: of trees, bindings, scopes, functions, classes and modules. Beside a new
session it is `Spent`: whatever both do from there on, the second one is ahead by these numbers.
Only classes and modules can be found again, by their names.
-/

namespace RubyInfer

/-! ## Trees -/

namespace Cache

structure Ahead (k : Nat) (c c' : Cache) : Prop where
  dumper : c'.dumper = c.dumper
  disk : c'.disk = c.disk
  memory (p : Path) : c'.memory.get? p = (c.memory.get? p).map (Option.map (· + k))
  size : c'.trees.size = c.trees.size + k
  trees (n : Nat) : c'.trees[n + k]? = c.trees[n]?

namespace Ahead

variable {k : Nat} {c c' : Cache}

theorem clear (ahead : Ahead k c c') : Ahead k c.clear c'.clear := { ahead with memory := fun _ => rfl }

theorem remember (ahead : Ahead k c c') (file : Path) (tree : Option Nat) :
    Ahead k (c.remember file tree) (c'.remember file (tree.map (· + k))) := by
  refine { ahead with memory := fun p => ?_ }
  show (c'.memory.insert file _).get? p = ((c.memory.insert file tree).get? p).map _
  rw [PathMap.get?_insert, PathMap.get?_insert, ahead.memory]
  split <;> rfl

theorem addTree (ahead : Ahead k c c') (file : Path) (tree : Ast) :
    (c'.addTree file tree).1 = (c.addTree file tree).1 + k ∧
      Ahead k (c.addTree file tree).2 (c'.addTree file tree).2 := by
  have pushed : Ahead k { c with trees := c.trees.push tree } { c' with trees := c'.trees.push tree } := by
    refine { ahead with size := ?_, trees := fun n => ?_ }
    · simp [ahead.size]
      omega
    · rw [Array.getElem?_push, Array.getElem?_push, ahead.size, ahead.trees]
      simp only [Nat.add_right_cancel_iff]
  refine ⟨ahead.size, ?_⟩
  have kept := pushed.remember file (some c.trees.size)
  rw [Option.map_some, ← ahead.size] at kept
  exact kept

theorem parse (ahead : Ahead k c c') (file : Path) (files : FileTree) :
    (c'.parse file files).1 = (c.parse file files).1.map (· + k) ∧
      (c'.parse file files).2.2 = (c.parse file files).2.2 ∧
      Ahead k (c.parse file files).2.1 (c'.parse file files).2.1 := by
  have counted : Ahead k { c with parses := c.parses + 1 } { c' with parses := c'.parses + 1 } :=
    { ahead with }
  have read : c'.dumper.parse files file = c.dumper.parse files file := by rw [ahead.dumper]
  unfold Cache.parse
  dsimp only
  rw [read]
  generalize c.dumper.parse files file = parsed
  obtain ⟨tree | tree, after⟩ := parsed
  · exact ⟨rfl, rfl, counted.remember file none⟩
  · obtain ⟨number, kept⟩ := counted.addTree file tree
    refine ⟨congrArg some number, ?_, kept⟩
    unfold storeToDisk
    dsimp only
    rw [ahead.disk]

theorem get (ahead : Ahead k c c') (file : Path) (files : FileTree) :
    (c'.get file files).1 = (c.get file files).1.map (· + k) ∧
      (c'.get file files).2.2 = (c.get file files).2.2 ∧
      Ahead k (c.get file files).2.1 (c'.get file files).2.1 := by
  have fromDisk (hash : UInt64) : c'.loadFromDisk file hash files = c.loadFromDisk file hash files := by
    unfold loadFromDisk
    rw [ahead.disk]
  unfold Cache.get
  rw [ahead.memory]
  cases c.memory.get? file with
  | some tree => exact ⟨rfl, rfl, { ahead with }⟩
  | none =>
    dsimp only [Option.map_none]
    cases files.read file with
    | error e => exact ⟨rfl, rfl, ahead.remember file none⟩
    | ok source =>
      dsimp only
      rw [fromDisk]
      generalize c.loadFromDisk file (Digest.content source) files = entry
      obtain ⟨tree | tree, after⟩ := entry
      · exact ahead.parse file after
      · have counted : Ahead k { c with diskHits := c.diskHits + 1 }
          { c' with diskHits := c'.diskHits + 1 } := { ahead with }
        obtain ⟨number, kept⟩ := counted.addTree file tree
        exact ⟨congrArg some number, rfl, kept⟩

end Ahead

end Cache

/-! ## Spent sessions -/

namespace Session

open Analysis

variable {R : Regime} {r s t b : Session} {P : Pairing}

def taken (r : Session) : Offsets where
  scopes := r.scopes.size - 1
  functions := r.functions.size
  classes := r.classes.size
  modules := r.modules.size
  bindings := r.registry.slots.size
  calls := r.calls

theorem classes_lt_of_onward {m : Session} (onward : Onward m t) {c : ClassId}
    {record : ClassRecord} (here : m.classes[c]? = some record) :
    record.qname ∈ t.classNames ∧ c < t.classes.size := by
  have named : record.qname ∈ m.classNames :=
    List.mem_map_of_mem (Array.mem_toList_iff.mpr (Array.mem_of_getElem? here))
  obtain ⟨inRange, -⟩ := Array.getElem?_eq_some_iff.mp here
  have longer := onward.classes.length_le
  simp only [classNames, List.length_map, Array.length_toList] at longer
  exact ⟨onward.classes.subset named, Nat.lt_of_lt_of_le inRange longer⟩

theorem modules_lt_of_onward {m : Session} (onward : Onward m t) {id : ModuleId} {record : ModuleRecord}
    (here : m.modules[id]? = some record) : record.qname ∈ t.moduleNames ∧ id < t.modules.size := by
  have named : record.qname ∈ m.moduleNames :=
    List.mem_map_of_mem (Array.mem_toList_iff.mpr (Array.mem_of_getElem? here))
  obtain ⟨inRange, -⟩ := Array.getElem?_eq_some_iff.mp here
  have longer := onward.modules.length_le
  simp only [moduleNames, List.length_map, Array.length_toList] at longer
  exact ⟨onward.modules.subset named, Nat.lt_of_lt_of_le inRange longer⟩

/-- A session that becomes `t` is compared to one that starts with what is taken in `r`. The names
of their classes and modules are different. -/
def beside (r t : Session) (classes : ∀ q ∈ t.classNames, q ∉ r.classNames)
    (modules : ∀ q ∈ t.moduleNames, q ∉ r.moduleNames) : Pairing where
  offsets := r.taken
  vocabulary := ⟨(· < t.functions.size), (· < t.classes.size), (· < t.modules.size), fun _ => True⟩
  source _ := True
  before := 0
  staleClass q := q ∈ r.classNames
  staleModule q := q ∈ r.moduleNames
  suited _ := True
  target _ := True
  place _ := True
  ok m := Onward m t
  store L c c' := L = (fun n n' => n' = n + r.cache.trees.size) ∧ c'.2 = c.2 ∧
    Cache.Ahead r.cache.trees.size c.1 c'.1
  unique := by
    rintro L c c' ⟨rfl, -, -⟩
    constructor
    · intro i j n first second
      exact Nat.add_right_cancel (first.symm.trans second)
    · intro n i j first second
      exact first.trans second.symm
  trees := by
    rintro L c c' n n' ⟨rfl, -, ahead⟩ rfl
    exact ahead.trees n
  speaks := fun _ _ _ _ _ => ⟨fun _ _ => trivial, fun _ _ _ => trivial⟩
  clear := by
    rintro L c c' ⟨rfl, same, ahead⟩
    exact ⟨rfl, same, ahead.clear⟩
  settle := by
    rintro L c c' path ⟨-, same, -⟩ -
    rw [same]
  fetch := by
    rintro L s s' path ⟨rfl, same, ahead⟩ - -
    have same : s'.files = s.files := same
    obtain ⟨tree, files, kept⟩ := ahead.get (s.files.settle path) s.files
    refine ⟨trivial, _, fun _ _ linked => linked, ⟨rfl, ?_, ?_⟩, ?_⟩
    · show (s'.cache.get _ s'.files).2.2 = (s.cache.get _ s.files).2.2
      rw [same, files]
    · show Cache.Ahead _ (s.cache.get _ s.files).2.1 (s'.cache.get _ s'.files).2.1
      rw [same]
      exact kept
    · show Option.Rel _ (s.cache.get _ s.files).1 (s'.cache.get _ s'.files).1
      rw [same, tree]
      cases (s.cache.get (s.files.settle path) s.files).1 with
      | none => exact .none
      | some n => exact .some ⟨rfl, trivial, fun _ _ => trivial⟩
  find := by
    rintro L s s' name ⟨-, same, -⟩ alike - cwd projectDir - -
    refine ⟨findRequired?_congr same alike cwd projectDir name, fun _ _ => trivial⟩
  classes := by
    intro m c record onward here
    obtain ⟨named, spoken⟩ := classes_lt_of_onward onward here
    exact ⟨classes _ named, spoken⟩
  modules := by
    intro m id record onward here
    obtain ⟨named, spoken⟩ := modules_lt_of_onward onward here
    exact ⟨modules _ named, spoken⟩
  functions := fun onward _ inRange => Nat.lt_of_lt_of_le inRange onward.functions

structure Spent (r : Session) : Prop where
  idle : r.Idle
  size : 0 < r.scopes.size
  global : ((r.scopes.get Scopes.global).kind, (r.scopes.get Scopes.global).parent,
      (r.scopes.get Scopes.global).path) = (.global, none, "")
  names (key : Key) : ((r.scopes.get Scopes.global).table.lookup key).getD [] = []
  bindings (id : BindingId) : r.registry.get? id = none
  references : r.registry.references.entries = []
  functionAt : r.functionAt = []
  owners : ∀ e ∈ r.owners, 0 < e.1 ∧ e.1 < r.scopes.size
  uncalled : r.uncalled = []
  loaded : r.loaded.paths = []
  failed : r.failed.paths = []
  diagnostics : r.diagnostics.byFile.entries = []
  resolved : r.resolved = []
  unresolved : r.unresolved = []
  memory : r.cache.memory.entries = []
  staticContext : r.staticContext = false
  cwd : r.cwd = none
  projectDir : r.projectDir = none
  phase : r.phase = .idle

theorem Spent.scope (spent : Spent r) (offsets : P.offsets = r.taken) : P.scope 1 = r.scopes.size := by
  have size := spent.size
  rw [Frame.scope_of_pos _ Nat.one_pos, offsets]
  show 1 + (r.scopes.size - 1) = r.scopes.size
  omega

theorem get_of_size_le {scopes : Scopes} {i : Nat} (outside : scopes.size ≤ i) :
    scopes.get i = ⟨.global, none, "", []⟩ := by
  rw [Scopes.get, Array.getElem?_eq_none outside]
  rfl

theorem Spent.scopes (spent : Spent r) (offsets : P.offsets = r.taken) :
    Scopes.Twin P.toFrame {} r.scopes where
  size := (spent.scope offsets).symm
  global := Nat.one_pos
  get i := by
    cases i with
    | zero =>
      have scope : P.scope 0 = 0 := P.scope_global
      obtain ⟨kind, parent, path⟩ := by simpa only [Prod.mk.injEq] using spent.global
      rw [scope]
      exact ⟨kind, parent, path, spent.names⟩
    | succ i =>
      have beyond : r.scopes.size ≤ P.scope (i + 1) := by
        rw [← spent.scope offsets, Frame.scope_of_pos _ Nat.one_pos, Frame.scope_of_pos _ (Nat.succ_pos i)]
        omega
      have outside : ({} : Scopes).size ≤ i + 1 := Nat.succ_le_succ (Nat.zero_le i)
      rw [get_of_size_le beyond, get_of_size_le outside]
      exact ⟨rfl, rfl, rfl, fun _ => rfl⟩
  parents i p around := by
    cases i with
    | zero => cases around
    | succ i =>
      have outside : ({} : Scopes).size ≤ i + 1 := Nat.succ_le_succ (Nat.zero_le i)
      rw [get_of_size_le outside] at around
      cases around

theorem Spent.owner (spent : Spent r) (offsets : P.offsets = r.taken) (i : Nat) :
    r.owners.lookup (P.scope i) = none := by
  rw [List.lookup_eq_none_iff]
  intro e mem
  obtain ⟨inner, inRange⟩ : (0 : Nat) < e.1 ∧ (e.1 : Nat) < P.scope 1 :=
    spent.scope offsets ▸ spent.owners e mem
  apply bne_iff_ne.mpr
  intro same
  rw [← same] at inner inRange
  cases i with
  | zero => exact absurd inner (Nat.not_lt.mpr (Nat.le_of_eq P.scope_global))
  | succ i =>
    rw [Frame.scope_of_pos _ Nat.one_pos, Frame.scope_of_pos _ (Nat.succ_pos i)] at inRange
    omega

theorem Spent.twin (spent : Spent r) {classes : ∀ q ∈ t.classNames, q ∉ r.classNames}
    {modules : ∀ q ∈ t.moduleNames, q ∉ r.moduleNames}
    {options : Options} {files : FileTree} (fresh : Session.new options files = .ok b)
    (alike : b.options.Alike r.options)
    (sameFiles : r.files = b.files) (dumper : r.cache.dumper = b.cache.dumper)
    (disk : r.cache.disk = b.cache.disk) :
    Twin (beside r t classes modules) ⟨fun n n' => n' = n + r.cache.trees.size, 1⟩ b r := by
  have offsets : (beside r t classes modules).offsets = r.taken := rfl
  have idle := spent.idle
  have memory := new_memory fresh
  have trees := trees_new fresh
  have empty := new_eq fresh
  have pathSet {p : PathSet} (none : p.paths = []) : p = {} := by
    cases p
    cases none
    rfl
  have diagnostics : r.diagnostics = {} := by
    have none := spent.diagnostics
    generalize r.diagnostics = ds at none
    obtain ⟨⟨entries⟩⟩ := ds
    cases none
    rfl
  have ahead : Cache.Ahead r.cache.trees.size b.cache r.cache := by
    refine ⟨dumper, disk, fun p => ?_, by simp [trees], fun n => ?_⟩
    · rw [memory, PathMap.get?, spent.memory]
      rfl
    · rw [trees, Array.getElem?_eq_none (Nat.le_add_left ..)]
      rfl
  generalize b.cache = cache, b.files = files', b.options = options' at empty ahead alike sameFiles
  subst empty
  constructor
  · exact alike
  · trivial
  · exact ⟨rfl, sameFiles, ahead⟩
  · rfl
  · exact spent.scopes offsets
  · refine ⟨(Nat.zero_add _).symm, fun i _ => spent.bindings i, fun i => ?_, ?_⟩
    · rw [spent.bindings]
      exact .none
    · rw [spent.references]
      exact .nil
  · exact .taken r.functions
  · exact Nat.zero_le _
  · rw [spent.functionAt]
    exact .nil
  · exact .taken r.classes
  · intro i _ c here
    exact List.mem_map_of_mem (Array.mem_toList_iff.mpr (Array.mem_of_getElem? here))
  · exact .taken r.modules
  · intro i _ m here
    exact List.mem_map_of_mem (Array.mem_toList_iff.mpr (Array.mem_of_getElem? here))
  · intro i
    rw [spent.owner offsets]
    exact .none
  · rw [idle.callStack]
    exact .nil
  · exact pathSet idle.importStack
  · rw [spent.uncalled]
    exact .nil
  · rw [idle.returns]
    exact .nil
  · exact pathSet spent.loaded
  · simp
  · exact pathSet spent.failed
  · simp
  · exact diagnostics
  · simp
  · rw [spent.resolved]
    exact .nil
  · rw [spent.unresolved]
    exact .nil
  · exact fun project => absurd rfl project
  · exact spent.staticContext
  · exact spent.cwd
  · exact spent.projectDir
  · exact idle.depth
  · exact idle.exhausted
  · exact (Nat.zero_add _).symm
  · exact spent.phase
  · exact fun _ _ => trivial

/-! ## What one file leaves -/

structure Housed (s : Session) : Prop where
  global : 0 < s.scopes.size
  owners : ∀ e ∈ s.owners, 0 < e.1 ∧ e.1 < s.scopes.size

theorem Housed.grown (housed : s.Housed) (owners : t.owners = s.owners)
    (grown : s.scopes.size ≤ t.scopes.size) : t.Housed where
  global := Nat.lt_of_lt_of_le housed.global grown
  owners e mem := by
    obtain ⟨inner, inRange⟩ := housed.owners e (owners ▸ mem)
    exact ⟨inner, Nat.lt_of_lt_of_le inRange grown⟩

theorem Housed.append (housed : s.Housed) {owner : Owner}
    (owners : t.owners = s.owners ++ [(s.scopes.size, owner)])
    (grown : s.scopes.size < t.scopes.size) : t.Housed where
  global := Nat.lt_trans housed.global grown
  owners e mem := by
    rw [owners, List.mem_append, List.mem_singleton] at mem
    rcases mem with old | rfl
    · obtain ⟨inner, inRange⟩ := housed.owners e old
      exact ⟨inner, Nat.lt_trans inRange grown⟩
    · exact ⟨housed.global, grown⟩

theorem Change.housed (change : Change R s t) (housed : s.Housed) : t.Housed := by
  cases change with
  | update step =>
    cases step with
    | bind scope tier name node body kind ty =>
      exact housed.grown rfl (Nat.le_of_eq (Scopes.size_enter ..).symm)
    | enter scope name tier id => exact housed.grown rfl (Nat.le_of_eq (Scopes.size_enter ..).symm)
    | newModule name qname parent => exact housed.append rfl (by simp [Scopes.size_push])
    | newClass name qname parent => exact housed.append rfl (by simp only [Scopes.size_push]; omega)
    | newFrame id kind => exact housed.grown rfl (by simp [Scopes.size_push])
    | _ => exact ⟨housed.global, housed.owners⟩
  | _ => exact ⟨housed.global, housed.owners⟩

theorem Runs.housed (run : Runs R s t) (housed : s.Housed) : t.Housed := run.keeps Change.housed housed

def setting (s : Session) := (s.options, s.projectDir, s.phase, s.cache.dumper, s.cache.disk)

theorem setting_fetch (s : Session) (file : Path) : (s.fetch file).2.setting = s.setting := by
  unfold fetch
  obtain ⟨id, -, got⟩ | ⟨-, diskHits, parses, files', got | ⟨a, -, got⟩⟩ :=
    s.cache.get_outcome file s.files <;> rw [got] <;> rfl

theorem Change.setting (change : Change R s t) : t.setting = s.setting := by
  cases change with
  | update step =>
    cases step with
    | fetch file => exact s.setting_fetch file
    | _ => rfl
  | _ => rfl

theorem Runs.setting (run : Runs R s t) : t.setting = s.setting := by
  have kept {u v : Session} (change : Change R u v) (same : u.setting = s.setting) :
      v.setting = s.setting := change.setting.trans same
  exact run.keeps kept rfl

end Session

def Realm.only (file : Path) : Realm where
  source f := f.same file = true
  same first second := Path.same_trans first second
  function _ := True
  before := 0
  newer _ := trivial

namespace Session

open Analysis

variable {R : Regime} {r s t a b : Session} {file path : Path} {options : Options} {files : FileTree}

theorem confined_new (made : Session.new options files = .ok s) (file : Path) : Confined (.only file) s := by
  have empty := new_eq made
  generalize s.cache = cache, s.files = files', s.options = options' at empty
  subst empty
  constructor
  · intro id b live
    cases live
  · simp [Registry.empty]
  · exact Nat.zero_le _
  · intro id f _ here
    cases here
  all_goals simp

theorem filter_other_eq_nil {α : Type} {place : α → Path} {xs : List α}
    (all : ∀ x ∈ xs, (place x).same file = true) :
    xs.filter (fun x => !(place x).same file) = [] := by
  rw [List.filter_eq_nil_iff]
  intro x mem
  simp [all x mem]

theorem filter_except_eq_nil {α : Type} {place : α → Path} {xs : List α}
    (all : ∀ x ∈ xs, (place x).same file = true) :
    xs.filter (fun x => !file.same (place x)) = [] := by
  simp only [Path.same_comm (p := file)]
  exact filter_other_eq_nil all

theorem spent_removeFile (confined : Confined (.only (s.files.settle path)) s) (passed : Passed s)
    (housed : s.Housed) (reads : (Realm.only (s.files.settle path)).Reads s)
    (global : ((s.scopes.get Scopes.global).kind, (s.scopes.get Scopes.global).parent,
      (s.scopes.get Scopes.global).path) = (.global, none, ""))
    (staticContext : s.staticContext = false) (cwd : s.cwd = none)
    (projectDir : s.projectDir = none) (phase : s.phase = .idle) :
    Spent (s.removeFile path) := by
  have gone (id : BindingId) : (s.removeFile path).registry.get? id = none := by
    rw [get?_removeFile]
    cases live : s.registry.get? id with
    | none => rfl
    | some b =>
      have here : b.file.same (s.files.settle path) = true := (confined.bindings live).1
      simp [Option.filter, here]
  have unheld (id : BindingId) : ¬(s.removeFile path).scopes.Holds id := by
    intro held
    have live := (passed.act (.removeFile path)).coherent.linked.entered held
    rw [gone] at live
    cases live
  have purged : (s.removeFile path).scopes =
      s.scopes.purge (s.registry.removeFile (s.files.settle path)).1 := rfl
  constructor
  · exact (passed.act (.removeFile path)).idle
  · exact Nat.lt_of_lt_of_eq housed.global (s.scopes.size_purge _).symm
  · rw [purged, Scopes.get_purge]
    exact global
  · intro key
    cases found : ((s.removeFile path).scopes.get Scopes.global).table.lookup key with
    | none => rfl
    | some ids =>
      cases ids with
      | nil => rfl
      | cons id ids =>
        have here : (s.removeFile path).scopes.local? Scopes.global key.name key.tier = some (id :: ids) := by
          unfold Scopes.local?
          rw [Scope.local?_eq, found]
          rfl
        exact absurd (Scopes.holds_of_local? here id List.mem_cons_self) (unheld id)
  · exact gone
  · show ((s.registry.references.erase _).mapValues _).entries = []
    unfold PathMap.mapValues PathMap.erase
    rw [filter_except_eq_nil fun e mem => (confined.index e mem).1]
    rfl
  · exact filter_other_eq_nil fun e mem => (confined.functionAt e mem).1
  · intro e mem
    obtain ⟨inner, inRange⟩ := housed.owners e mem
    exact ⟨inner, Nat.lt_of_lt_of_eq inRange (s.scopes.size_purge _).symm⟩
  · apply filter_other_eq_nil
    intro id mem
    have inRange := (passed.catalogued.waiting mem).1
    have here := Array.getElem?_eq_getElem inRange
    show (s.function id).node.file.same _ = true
    rw [function, here]
    exact confined.functions trivial here
  · exact filter_except_eq_nil confined.loaded
  · exact filter_except_eq_nil confined.failed
  · exact filter_except_eq_nil confined.reported
  · exact filter_other_eq_nil confined.resolved
  · exact filter_other_eq_nil confined.unresolved
  · apply filter_except_eq_nil
    intro e mem
    apply reads
    exact List.any_eq_true.mpr ⟨e, mem, Path.same_refl _⟩
  · exact staticContext
  · exact cwd
  · exact projectDir
  · exact phase

theorem options_new (made : Session.new options files = .ok s) :
    s.options = options ∧ options.dumper = .ok s.cache.dumper := by
  obtain ⟨dumper, _, _, chosen, rfl⟩ := new_inv made
  exact ⟨rfl, chosen⟩

theorem spent_loadFile {files₁ : FileTree} (made : Session.new options files₁ = .ok a)
    (files : FileTree) (path : Path)
    (alone : ∀ m ∈ (a.loadFile path).2 :: through (tellLoad path false a).2.2,
      (Realm.only (files.settle path)).Reads m) :
    Spent ({ (a.loadFile path).2 with files }.removeFile path) := by
  have passed : Passed a := .new made
  have run (R : Regime) (spends : R.spends) : Runs R a (a.loadFile path).2 :=
    runs_load (new_sound made) passed.idle.depth path false spends
  obtain ⟨reads, along⟩ := List.forall_mem_cons.mp alone
  have empty := new_eq made
  have housed : a.Housed := by
    rw [empty]
    exact ⟨Nat.one_pos, by simp⟩
  have guards := (run .any trivial).guards
  have setting := (run .any trivial).setting
  simp only [Session.setting, Prod.mk.injEq] at setting
  obtain ⟨-, projectDir, phase, -⟩ := setting
  have extended := (run .flat trivial).extends (new_sound made)
  have first : a.scopes.arena[Scopes.global]? = some ⟨.global, none, "", []⟩ := by
    rw [empty]
    rfl
  obtain ⟨global, there, kept⟩ := extended.scopes.found first
  have confined := (confined_new made (files.settle path)).load passed path false along
  have later := (passed.act (.advance (.load path false))).act (.edit files)
  refine spent_removeFile (s := { (a.loadFile path).2 with files }) { confined with } later ?_ reads
    ?_ ?_ ?_ ?_ ?_
  · have there := (run .any trivial).housed housed
    exact ⟨there.global, there.owners⟩
  · show ((((a.loadFile path).2.scopes.get Scopes.global).kind, _, _)) = _
    rw [Scopes.get, there]
    exact Prod.ext kept.kind (Prod.ext kept.parent kept.path)
  · exact guards.staticContext.trans (by rw [empty])
  · exact guards.cwd.trans (by rw [empty])
  · exact projectDir.trans (by rw [empty])
  · exact phase.trans (by rw [empty])

/-! ## A new session beside a reloading one -/

theorem load_of_new (new : s.loaded.contains (s.files.settle path) = false) :
    (load inferTop path true).run s = (load inferTop path false).run s := by
  show (if s.importStack.contains (s.files.settle path) then _ else _ : Analysis (Option Ty)).run s =
    (if s.importStack.contains (s.files.settle path) then _ else _ : Analysis (Option Ty)).run s
  split
  · rfl
  · show _ = (if (!false && s.loaded.contains (s.files.settle path)) = true then _ else
        _ : Analysis (Option Ty)).run s
    rw [new]
    rfl

theorem finish_gathers (atTop : s.depth = 0) {rounds : Nat} {summary : Summary}
    (ended : finish? rounds s = some (summary, t)) :
    Onward s t ∧ ∀ m ∈ through (tellDrain rounds { s with phase := .fixpoint }).2, Onward m t := by
  obtain ⟨u, drained, same⟩ := Option.map_eq_some_iff.mp (finish?_eq rounds s ▸ ended)
  cases same
  have gathers := lasting_gathers.drain (s := { s with phase := .fixpoint }) atTop drained
  have begun : Onward s { s with phase := .fixpoint } := { Onward.refl s with }
  have last : Onward u u.ended := { Onward.refl u with }
  exact ⟨begun.trans (gathers.onward.trans last), fun m mem => (gathers.between m mem).2.trans last⟩

theorem display_beside {classes : ∀ q ∈ t.classNames, q ∉ r.classNames}
    {modules : ∀ q ∈ t.moduleNames, q ∉ r.moduleNames} {st : Stage}
    {t' : Session} (twin : Twin (beside r t classes modules) st t t') (ty ty' : Ty)
    (typed : (beside r t classes modules).TyTwin ty ty') :
    ty'.display t'.names = ty.display t.names := by
  rw [typed.eq]
  refine Ty.display_shift ?_ ?_ ?_ ty typed.within
  · intro id (known : id < t.functions.size)
    have here := Array.getElem?_eq_getElem known
    obtain ⟨f, there, related⟩ := twin.functions.found known here
    unfold names
    dsimp only
    rw [here, there]
    exact related.name
  · intro id (known : id < t.classes.size)
    have here := Array.getElem?_eq_getElem known
    obtain ⟨c, there, related⟩ := twin.classes.found trivial here
    unfold names
    dsimp only
    rw [here, there]
    exact related.qname
  · intro id (known : id < t.modules.size)
    have here := Array.getElem?_eq_getElem known
    obtain ⟨m, there, related⟩ := twin.modules.found trivial here
    unfold names
    dsimp only
    rw [here, there]
    exact related.qname

theorem Spent.shows (spent : Spent r) (fresh : Session.new options files = .ok b)
    (alike : b.options.Alike r.options)
    (sameFiles : r.files = b.files) (dumper : r.cache.dumper = b.cache.dumper)
    (disk : r.cache.disk = b.cache.disk) (path : Path)
    {rounds : Nat} {summary : Summary} (ended : finish? rounds (b.loadFile path).2 = some (summary, t))
    (classes : ∀ q ∈ t.classNames, q ∉ r.classNames) (modules : ∀ q ∈ t.moduleNames, q ∉ r.moduleNames) :
    ∃ summary' t', finish? rounds ((load inferTop path true).run r).2 = some (summary', t') ∧
      t'.view = t.view := by
  have atTop : b.depth = 0 := (new_idle fresh).depth
  have new : b.loaded.contains (b.files.settle path) = false := by
    rw [new_eq fresh]
    rfl
  have twin : Twin (beside r t classes modules) _ b r := spent.twin fresh alike sameFiles dumper disk
  have loading : (load inferTop path true).run b = b.loadFile path := load_of_new new
  have depth : (b.loadFile path).2.depth = 0 := depth_load atTop path false
  obtain ⟨onward, along⟩ := finish_gathers depth ended
  have gathers := lasting_gathers.load atTop path true
  rw [loading] at gathers
  have target : (beside r t classes modules).target path := trivial
  obtain ⟨st, -, loaded⟩ := load_twin twin atTop target true fun m mem =>
    (gathers.between m mem).2.trans onward
  rw [loading] at loaded
  have ends := finish?_twin loaded depth rounds along
  rw [ended] at ends
  generalize finish? rounds ((load inferTop path true).run r).2 = last at ends
  cases ends with
  | @some _ after related =>
    obtain ⟨st', -, final⟩ := related
    exact ⟨after.1, after.2, rfl, final.view_eq (display_beside final)⟩

/-- **Reloading forgets the old version.** Let a session load one file, which asks for no other, and
then let files change. When it reloads the file it shows the same as a new session that loads it,
once both have ended, unless a class or a module of the new session has the name of one that is left
from the first version. -/
theorem reload_as_new {options : Options} {files₁ files₂ : FileTree}
    (before : Session.new options files₁ = .ok a)
    (fresh : Session.new options files₂ = .ok b) (disk : a.cache.disk = b.cache.disk) (path : Path)
    (alone : ∀ m ∈ (a.loadFile path).2 :: through (tellLoad path false a).2.2,
      (Realm.only (b.files.settle path)).Reads m)
    {rounds : Nat} {summary : Summary} (ended : finish? rounds (b.loadFile path).2 = some (summary, t))
    (classes : ∀ q ∈ t.classNames, q ∉ (a.loadFile path).2.classNames)
    (modules : ∀ q ∈ t.moduleNames, q ∉ (a.loadFile path).2.moduleNames) :
    ∃ summary' t', finish? rounds ({ (a.loadFile path).2 with files := b.files }.reload path).2 =
      some (summary', t') ∧ t'.view = t.view := by
  have setting := (runs_load a.sound_any (new_idle before).depth path false).setting
  simp only [Session.setting, Prod.mk.injEq] at setting
  obtain ⟨options, -, -, dumper, folder⟩ := setting
  have alike : b.options.Alike (a.loadFile path).2.options := by
    rw [show (a.loadFile path).2.options = a.options from options, (options_new before).1,
      (options_new fresh).1]
    rfl
  have sameDumper : (a.loadFile path).2.cache.dumper = b.cache.dumper := by
    have first := (options_new before).2
    rw [(options_new fresh).2] at first
    exact dumper.trans (Except.ok.inj first).symm
  exact (spent_loadFile before b.files path alone).shows fresh alike rfl sameDumper
    (folder.trans disk) path ended classes modules

def classDump (name more body : String) : String :=
  "\x7b\"type\":\"class\",\"name\":" ++ naming name ++ more ++
    ",\"body\":\x7b\"type\":\"block\",\"stmts\":[" ++ body ++ "]\x7d\x7d"

def methodDump : String :=
  "\x7b\"type\":\"def\",\"name\":" ++ naming "m" ++
  ",\"params\":\x7b\x7d,\"body\":\x7b\"type\":\"void\"\x7d\x7d"

def calling (value method : String) : String :=
  "\x7b\"type\":\"call\",\"func\":" ++ dotted value method ++ ",\"args\":\x7b\x7d\x7d"

def derived : String := statements
    [classDump "B" "" methodDump, classDump "A" (",\"super\":" ++ naming "B") ""]

def separate : String := statements
    [classDump "B" "" methodDump, classDump "A" "" "", calling (calling (naming "A") "new") "m"]

def renamed : String := statements [classDump "C" "" methodDump, calling (calling (naming "C") "new") "m"]

def beforeVersion (version : String) : Session where
  options := { cacheDir := ⟨"cache"⟩, diskCache := false }
  files := { root := .folder [("p.rb", .file version.toUTF8)] }
  cache := { dumper := .content }

theorem new_beforeVersion (version : String) :
    Session.new { cacheDir := ⟨"cache"⟩, diskCache := false } (beforeVersion version).files =
      .ok (beforeVersion version) :=
  rfl

def loadedVersion (version : String) : Session := ((beforeVersion version).loadFile ⟨"/p.rb"⟩).2

theorem reachable_loadedVersion (version : String) : Reachable (loadedVersion version) := by
  unfold loadedVersion
  exact (Reachable.new (new_beforeVersion version)).loadFile _

def reloadedVersion (first second : String) : Session :=
  ({ loadedVersion first with files := (beforeVersion second).files }.reload ⟨"/p.rb"⟩).2

theorem reload_as_new_renamed :
    (finish? 1 (loadedVersion renamed)).map (fun e => e.2.classNames) = some ["C"] ∧
      (finish? 1 (reloadedVersion derived renamed)).map (fun e => e.2.classNames) = some ["B", "A", "C"] ∧
      (finish? 1 (reloadedVersion derived renamed)).map (fun e => e.2.view) =
        (finish? 1 (loadedVersion renamed)).map (fun e => e.2.view) := by
  have settled : (beforeVersion renamed).files.settle ⟨"/p.rb"⟩ = ⟨"/p.rb"⟩ := by decide +kernel
  have disk (version : String) : (beforeVersion version).cache.disk = none := rfl
  obtain ⟨named, left, earlier, kept⟩ :
      (finish? 1 (loadedVersion renamed)).map (fun e => (e.2.classNames, e.2.moduleNames)) =
        some (["C"], []) ∧
      (finish? 1 (reloadedVersion derived renamed)).map (fun e => e.2.classNames) = some ["B", "A", "C"] ∧
      (loadedVersion derived).classNames = ["B", "A"] ∧
      ∀ m ∈ loadedVersion derived :: through (tellLoad ⟨"/p.rb"⟩ false (beforeVersion derived)).2.2,
        ∀ e ∈ m.cache.memory.entries, e.1.same ⟨"/p.rb"⟩ = true := by decide +kernel
  rw [loadedVersion] at named earlier kept ⊢
  obtain ⟨⟨summary, t⟩, ended, names⟩ := Option.map_eq_some_iff.mp named
  rw [Prod.mk.injEq] at names
  obtain ⟨summary', t', again, alike⟩ := reload_as_new (new_beforeVersion derived) (new_beforeVersion renamed)
    ((disk derived).trans (disk renamed).symm) ⟨"/p.rb"⟩
    (by
      intro m mem f held
      obtain ⟨e, entry, same⟩ := List.any_eq_true.mp held
      rw [settled]
      exact Path.same_trans same (kept m mem e entry))
    ended
    (by
      intro q mem
      rw [names.1, List.mem_singleton] at mem
      subst mem
      rw [earlier]
      decide)
    (by simp [names.2])
  refine ⟨by rw [ended, Option.map_some, names.1], left, ?_⟩
  rw [ended, Option.map_some, ← alike, reloadedVersion, loadedVersion, again, Option.map_some]

/-- The record of `A` outlives the removal of its file, and with it what the class extended. -/
theorem reload_not_as_new :
    (finish? 1 (loadedVersion separate)).isSome ∧ (finish? 1 (reloadedVersion derived separate)).isSome ∧
      (finish? 1 (reloadedVersion derived separate)).map (fun e => e.2.view) ≠
        (finish? 1 (loadedVersion separate)).map (fun e => e.2.view) := by
  decide +kernel

end Session

end RubyInfer
