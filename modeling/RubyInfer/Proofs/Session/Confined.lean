import RubyInfer.Proofs.Session.Alongside
import RubyInfer.Proofs.Session.Removal
import RubyInfer.Proofs.Session.Termination

/-!
# Sessions that keep to certain files

A `Realm` is a set of files, with the functions that may be spoken of. A session is `Confined` to it
if all its nodes are of these files and no type speaks of another function. Such a session is alike
itself in a pairing of its own, so whatever inference does in a realm leaves the session confined,
as long as no tree of another file is asked for.
-/

namespace RubyInfer

namespace Ty

mutual
theorem shift_zero : (a : Ty) → a.shift {} = a
  | .list elem literals => by rw [shift, shift_zero elem]
  | .dict key value => by rw [shift, shift_zero key, shift_zero value]
  | .union ms => by rw [shift, shiftAll_zero ms]
  | .function _ | .classObj _ | .moduleObj _ | .inst _ => rfl
  | .unknown | .nil | .bool | .num | .str _ | .symbol _ => rfl

theorem shiftAll_zero : (ts : List Ty) → shiftAll {} ts = ts
  | [] => rfl
  | t :: ts => by rw [shiftAll, shift_zero t, shiftAll_zero ts]
end

end Ty

/-! ## Trees in memory -/

namespace Cache

variable {c : Cache}

theorem Homed.clear (c : Cache) : c.clear.Homed := by
  intro p n known
  cases known

theorem Homed.remove (homed : c.Homed) (file : Path) : (c.remove file).Homed := by
  intro p n known
  replace known : (c.memory.erase file).get? p = some (some n) := known
  rw [PathMap.get?_erase] at known
  split at known
  · cases known
  · exact homed p n known

theorem Homed.prewarm (homed : c.Homed) (paths : List Path) (files : FileTree) :
    (c.prewarm paths files).1.Homed := by
  have asking : Asking (fun _ => True) (c, files) (c.prewarm paths files) :=
    (Asking.refl _).prewarm fun _ _ => trivial
  exact asking.homed homed

theorem contains_get (c : Cache) (file : Path) (files : FileTree) :
    (c.get file files).2.1.contains file = true := by
  unfold contains
  rw [PathMap.contains_eq_isSome]
  obtain ⟨id, known, got⟩ | ⟨-, diskHits, parses, files', got | ⟨a, -, got⟩⟩ := c.get_outcome file files
  · rw [got]
    simp [known]
  · rw [got]
    simp [remember, PathMap.get?_insert, Path.same_refl]
  · rw [got]
    simp [addTree, remember, PathMap.get?_insert, Path.same_refl]

theorem Homed.file_get (homed : c.Homed) {file : Path} {files : FileTree} {n : Nat}
    (found : (c.get file files).1 = some n) :
    ((c.get file files).2.1.trees[n]?.getD default).file.same file = true := by
  obtain ⟨id, known, got⟩ | ⟨-, diskHits, parses, files', got | ⟨a, named, got⟩⟩ := c.get_outcome file files
  · rw [got] at found ⊢
    obtain rfl : id = some n := found
    obtain ⟨a, there, home⟩ := homed file n known
    simp [there, home]
  · rw [got] at found
    cases found
  · rw [got] at found ⊢
    obtain rfl : c.trees.size = n := Option.some.inj found
    simp [addTree, remember, named, Path.same_refl]

end Cache

namespace Session

variable {R : Regime} {s t u : Session} {events : List Event}

theorem Change.homed (change : Change R s t) (homed : s.cache.Homed) : t.cache.Homed := by
  cases change with
  | update step =>
    cases step with
    | fetch file => exact homed.get
    | skipTree => exact Cache.Homed.clear _
    | giveUp => exact Cache.Homed.clear _
    | _ => exact homed
  | _ => exact homed

theorem Act.homed (step : Act s t) (idle : s.Idle) (homed : s.cache.Homed) : t.cache.Homed := by
  cases step with
  | advance step =>
    cases step with
    | begin => exact homed
    | prewarm paths => exact homed.prewarm paths s.files
    | load path force => exact (runs_load s.sound_any idle.depth path force).keeps Change.homed homed
    | drain id => exact (runs_apply s.sound_any idle.depth id).keeps Change.homed homed
  | edit | setStatic | reportUnused => exact homed
  | clearCache => exact Cache.Homed.clear _
  | removeFile path => exact homed.remove _

theorem new_memory {options : Options} {files : FileTree}
    (made : Session.new options files = .ok s) : s.cache.memory = {} := by
  rw [cache_new made]

theorem Passed.homed (passed : Passed s) : s.cache.Homed := by
  induction passed with
  | new made =>
    intro p n known
    rw [new_memory made] at known
    cases known
  | act before step homed => exact step.homed before.idle homed

theorem findRequired?_congr {s' : Session} (files : s'.files = s.files)
    (alike : s.options.Alike s'.options) (cwd : s'.cwd = s.cwd)
    (projectDir : s'.projectDir = s.projectDir) (name : String) :
    s'.findRequired? (s'.requiredPath name) = s.findRequired? (s.requiredPath name) := by
  have loadPath : s'.options.loadPath = s.options.loadPath := by rw [alike]
  have suffix : s'.options.suffix = s.options.suffix := by rw [alike]
  have roots : s'.requireRoots = s.requireRoots := by
    unfold requireRoots
    rw [loadPath, cwd, projectDir]
  unfold findRequired? requiredPath findBelow?
  rw [roots, suffix, files]

end Session

/-! ## Realms -/

/-- Certain files, and the functions that may be spoken of: all that are new, and some that are
not. -/
structure Realm where
  source : Path → Prop
  same {f g : Path} : f.same g = true → source g → source f
  function : FunctionId → Prop
  before : Nat
  newer {id : FunctionId} : before ≤ id → function id

namespace Realm

variable (R : Realm)

def vocabulary : Ty.Vocabulary := ⟨R.function, fun _ => True, fun _ => True, fun _ => True⟩

def Reads (s : Session) : Prop := ∀ f, s.cache.contains f = true → R.source f

def pairing : Pairing where
  offsets := {}
  vocabulary := R.vocabulary
  source := R.source
  before := R.before
  staleClass _ := False
  staleModule _ := False
  suited _ := True
  target _ := True
  place _ := True
  ok := R.Reads
  store L c c' := L = Eq ∧ c' = c ∧ c.1.Homed
  unique := by
    rintro L c c' ⟨rfl, -, -⟩
    exact ⟨fun _ _ _ first second => first.trans second.symm, fun _ _ _ first second =>
      first.symm.trans second⟩
  trees := by
    rintro L c c' n n' ⟨rfl, rfl, -⟩ rfl
    rfl
  speaks := fun _ _ _ _ _ => ⟨fun _ _ => trivial, fun _ _ _ => trivial⟩
  clear := by
    rintro L c c' ⟨rfl, rfl, -⟩
    exact ⟨rfl, rfl, Cache.Homed.clear _⟩
  settle := by
    rintro L c c' path ⟨-, rfl, -⟩ -
    rfl
  fetch := by
    rintro L s s' path ⟨rfl, same, homed⟩ - reads
    obtain ⟨sameCache, sameFiles⟩ := Prod.mk.inj same
    have asked : R.source (s.files.settle path) := reads _ (Cache.contains_get ..)
    have fetched : s'.cache.get (s.files.settle path) s'.files =
        s.cache.get (s.files.settle path) s.files := by
      rw [sameCache, sameFiles]
    refine ⟨asked, Eq, fun _ _ linked => linked, ⟨rfl, ?_, homed.get⟩, ?_⟩
    · unfold Session.fetch
      rw [fetched]
    · have got : (s'.fetch (s.files.settle path)).1 = (s.fetch (s.files.settle path)).1 := by
        unfold Session.fetch
        rw [fetched]
      rw [got]
      cases found : (s.fetch (s.files.settle path)).1 with
      | none => exact .none
      | some n => exact .some ⟨rfl, R.same (homed.file_get found) asked, fun _ _ => trivial⟩
  find := by
    rintro L s s' name ⟨-, same, -⟩ alike - cwd projectDir - -
    exact ⟨Session.findRequired?_congr (Prod.mk.inj same).2 alike cwd projectDir name, fun _ _ => trivial⟩
  classes := fun _ _ => ⟨fun stale => stale, trivial⟩
  modules := fun _ _ => ⟨fun stale => stale, trivial⟩
  functions := fun _ new _ => R.newer new

end Realm

namespace Session

variable {R : Realm} {s s' t u : Session} {st : Stage} {events : List Event}

structure Confined (R : Realm) (s : Session) : Prop where
  bindings {id : BindingId} {b : Binding} : s.registry.get? id = some b →
    R.source b.node.file ∧ b.ty.Within R.vocabulary ∧ ∀ node ∈ b.refs, R.source node.file
  index : ∀ e ∈ s.registry.references.entries, R.source e.1 ∧ ∀ x ∈ e.2, R.source x.1.file
  before : R.before ≤ s.functions.size
  functions {id : FunctionId} {f : FunctionRecord} : R.function id → s.functions[id]? = some f →
      R.source f.node.file
  functionAt : ∀ e ∈ s.functionAt, R.source e.1.file ∧ R.function e.2
  uncalled : ∀ id ∈ s.uncalled, R.function id
  loaded : ∀ f ∈ s.loaded.paths, R.source f
  failed : ∀ f ∈ s.failed.paths, R.source f
  reported : ∀ e ∈ s.diagnostics.byFile.entries, R.source e.1
  resolved : ∀ node ∈ s.resolved, R.source node.file
  unresolved : ∀ node ∈ s.unresolved, R.source node.file

/-! ## A confined session beside itself -/

theorem scopesTwin_self {F : Frame} (still : F.offsets = {}) {scopes : Scopes}
    {functions : Array FunctionRecord}
    (nested : Nested scopes functions) : Scopes.Twin F scopes scopes where
  size := (Frame.scope_still still _).symm
  global := nested.global
  get i := by
    rw [Frame.scope_still still i]
    refine ⟨rfl, ?_, rfl, fun key => ?_⟩
    · cases (scopes.get i).parent with
      | none => rfl
      | some p => simp [Frame.scope_still still]
    · have same : F.binding = id := by
        funext i
        simp [Frame.binding, still]
      rw [same, List.map_id]
  parents i p around := by
    unfold Scopes.get at around
    cases here : scopes.arena[i]? with
    | none =>
      rw [here] at around
      cases around
    | some scope =>
      rw [here] at around
      exact nested.parents here p around

section Beside

variable (R)

theorem tyTwin_self {ty : Ty} (within : ty.Within R.vocabulary) : R.pairing.TyTwin ty ty :=
  ⟨ty.shift_zero.symm, within⟩

theorem nodeTwin_self {node : NodeRef} (source : R.source node.file) :
    NodeRef.Twin R.pairing.toFrame Eq node node := ⟨rfl, rfl, rfl, source⟩

theorem scope_self (i : Nat) : R.pairing.scope i = i := Frame.scope_still rfl i

theorem scopeTwin_self {size i : Nat} (inRange : i < size) : R.pairing.ScopeTwin size i i :=
  ⟨inRange, (scope_self R i).symm⟩

theorem functionTwin_self {id : FunctionId} (spoken : R.function id) :
    R.pairing.FunctionTwin id id := ⟨rfl, spoken⟩

theorem ownerTwin_self (o : Owner) : R.pairing.OwnerTwin o o := by
  cases o with
  | classObj c => exact .classObj (F := R.pairing.toFrame) (c := c) trivial
  | moduleObj m => exact .moduleObj (F := R.pairing.toFrame) (m := m) trivial

theorem optionRel_self {α : Type} {rel : α → α → Prop} {x : Option α} (each : ∀ a ∈ x, rel a a) :
    Option.Rel rel x x := by
  cases x with
  | none => exact .none
  | some a => exact .some (each a rfl)

theorem bindingTwin_self {b : Binding} (source : R.source b.node.file) (within : b.ty.Within R.vocabulary)
    (refs : ∀ node ∈ b.refs, R.source node.file) : Binding.Twin R.pairing.toFrame Eq b b where
  name := rfl
  qname := rfl
  kind := rfl
  node := nodeTwin_self R source
  body := rfl
  ty := tyTwin_self R within
  refs := List.forall₂_same.mpr fun node mem => nodeTwin_self R (refs node mem)

end Beside

theorem Confined.twin (confined : Confined R s) (passed : Passed s) :
    Twin R.pairing ⟨Eq, s.scopes.size⟩ s s := by
  have nested := passed.nested
  have idle := passed.idle
  have placed := passed.sound (R := .placed)
  have standing {i : ScopeId} (there : s.HasScope .placed i) :
      R.pairing.ScopeTwin s.scopes.size i i := scopeTwin_self R (there trivial)
  constructor
  · exact rfl
  · trivial
  · exact ⟨rfl, rfl, passed.homed⟩
  · exact rfl
  · exact scopesTwin_self rfl nested
  · refine ⟨rfl, fun i before => absurd before (Nat.not_lt_zero i), fun i => ?_, ?_⟩
    · apply optionRel_self
      intro b live
      obtain ⟨source, within, refs⟩ := confined.bindings live
      exact bindingTwin_self R source within refs
    · apply List.forall₂_same.mpr
      intro e mem
      obtain ⟨source, nodes⟩ := confined.index e mem
      refine ⟨rfl, source, List.forall₂_same.mpr fun x inside => ⟨nodeTwin_self R (nodes x inside), ?_⟩⟩
      have same : R.pairing.binding = id := rfl
      rw [same, List.map_id]
  · refine ⟨rfl, fun i spoken => optionRel_self fun f here => ?_⟩
    exact {
      node := nodeTwin_self R (confined.functions spoken here), name := rfl, qname := rfl
      env := scopeTwin_self R (nested.functions here), owner := optionRel_self fun o _ => ownerTwin_self R o
      classLevel := rfl, isLambda := rfl, called := rfl
      frame := optionRel_self fun frame set => standing ((placed.functions here).2 frame set), active := rfl }
  · exact confined.before
  · apply List.forall₂_same.mpr
    intro e mem
    obtain ⟨source, spoken⟩ := confined.functionAt e mem
    exact ⟨nodeTwin_self R source, functionTwin_self R spoken⟩
  · refine ⟨rfl, fun i _ => optionRel_self fun c here => ?_⟩
    obtain ⟨scope, instances⟩ := placed.classes here
    exact ⟨rfl, rfl, standing scope, standing instances, Option.map_id_apply.symm, (List.map_id _).symm⟩
  · exact fun i before => absurd before (Nat.not_lt_zero i)
  · exact ⟨rfl, fun i _ => optionRel_self fun m here =>
    ⟨rfl, rfl, standing (placed.modules here), (List.map_id _).symm⟩⟩
  · exact fun i before => absurd before (Nat.not_lt_zero i)
  · intro i
    rw [scope_self R i]
    exact optionRel_self fun o _ => ownerTwin_self R o
  · rw [idle.callStack]
    exact .nil
  · rfl
  · exact List.forall₂_same.mpr fun id mem => functionTwin_self R (confined.uncalled id mem)
  · rw [idle.returns]
    exact .nil
  · rfl
  · exact confined.loaded
  · rfl
  · exact confined.failed
  · rfl
  · exact confined.reported
  · exact List.forall₂_same.mpr fun node mem => nodeTwin_self R (confined.resolved node mem)
  · exact List.forall₂_same.mpr fun node mem => nodeTwin_self R (confined.unresolved node mem)
  · exact fun _ => rfl
  all_goals first | rfl | exact fun _ _ => trivial

theorem left_of_forall₂ {α β : Type} {rel : α → β → Prop} {p : α → Prop} {xs : List α} {ys : List β}
    (related : List.Forall₂ rel xs ys) (each : ∀ a b, rel a b → p a) : ∀ a ∈ xs, p a := by
  induction related with
  | nil => simp
  | cons first _ ih => exact List.forall_mem_cons.mpr ⟨each _ _ first, ih⟩

theorem Twin.confined (twin : Twin R.pairing st s s') : Confined R s where
  bindings live := by
    obtain ⟨b', -, related⟩ := twin.registry.get?_of_some live
    exact ⟨related.node.source, related.ty.within, left_of_forall₂ related.refs fun _ _ node => node.source⟩
  index := left_of_forall₂ twin.registry.references fun e e' entry =>
    ⟨entry.source, left_of_forall₂ entry.nodes fun _ _ node => node.1.source⟩
  before := twin.before
  functions {id f} spoken here := by
    obtain ⟨f', -, related⟩ := twin.functions.found spoken here
    exact related.node.source
  functionAt := left_of_forall₂ twin.functionAt fun _ _ entry => ⟨entry.1.source, entry.2.spoken⟩
  uncalled := left_of_forall₂ twin.uncalled fun _ _ known => known.spoken
  loaded := twin.loadedFrom
  failed := twin.failedFrom
  reported := twin.reported
  resolved := left_of_forall₂ twin.resolved fun _ _ node => node.source
  unresolved := left_of_forall₂ twin.unresolved fun _ _ node => node.source

/-! ## Operations -/

theorem Confined.load (confined : Confined R s) (passed : Passed s) (path : Path) (force : Bool)
    (reads : ∀ m ∈ through (Analysis.tellLoad path force s).2.2, R.Reads m) :
    Confined R ((Analysis.load Analysis.inferTop path force).run s).2 := by
  obtain ⟨st, -, after⟩ := Analysis.load_twin (confined.twin passed) passed.idle.depth
    (show R.pairing.target path from trivial) force reads
  exact after.confined

theorem Confined.finish {rounds : Nat} {summary : Summary} (confined : Confined R s) (passed : Passed s)
    (reads : ∀ m ∈ through (Analysis.tellDrain rounds { s with phase := .fixpoint }).2, R.Reads m)
    (ended : finish? rounds s = some (summary, t)) : Confined R t := by
  have alike := Analysis.finish?_twin (confined.twin passed) passed.idle.depth rounds reads
  rw [ended] at alike
  cases alike with
  | some after =>
    obtain ⟨st, -, twin⟩ := after
    exact twin.confined

theorem Confined.removeFile (confined : Confined R s) (path : Path) : Confined R (s.removeFile path) where
  bindings live := by
    obtain ⟨old, there, -, rfl⟩ := live_removeFile live
    obtain ⟨source, within, refs⟩ := confined.bindings there
    exact ⟨source, within, fun node mem => refs node (List.mem_filter.mp mem).1⟩
  index e mem := by
    obtain ⟨kept, there, rfl⟩ := List.mem_map.mp mem
    obtain ⟨source, nodes⟩ := confined.index kept (List.mem_filter.mp there).1
    refine ⟨source, fun x inside => ?_⟩
    obtain ⟨old, before, rfl⟩ := List.mem_map.mp inside
    exact nodes old before
  before := confined.before
  functions := confined.functions
  functionAt e mem := confined.functionAt e (List.mem_filter.mp mem).1
  uncalled id mem := confined.uncalled id (List.mem_filter.mp mem).1
  loaded f mem := confined.loaded f (List.mem_filter.mp mem).1
  failed f mem := confined.failed f (List.mem_filter.mp mem).1
  reported e mem := confined.reported e (List.mem_filter.mp mem).1
  resolved node mem := confined.resolved node (List.mem_filter.mp mem).1
  unresolved node mem := confined.unresolved node (List.mem_filter.mp mem).1

end Session

end RubyInfer
