import RubyInfer.Proofs.Session.Draining
import RubyInfer.Proofs.Session.Unused

/-!
# Analyzing a project again

Once an analysis has ended, a second one finds nothing to do: files that are loaded are passed over,
files that cannot be parsed or are too large are left alone as they were the first time, no function
waits, and the scan at the end says again what it has said (`reanalysis_keeps`). A file that exceeds
the depth is not among these: it is inferred again, from a new tree, and its names are bound once
more (`reanalysis_rebinds`). Ending an analysis a second time changes no count, and of the rest only
the order of the reports (`finish_again`).
-/

namespace RubyInfer

/-! ## Asking for some files -/

namespace Cache

inductive Asking (ask : Path → Prop) : Cache × FileTree → Cache × FileTree → Prop
  | refl (w : Cache × FileTree) : Asking ask w w
  | get {w : Cache × FileTree} {c : Cache} {files : FileTree} (before : Asking ask w (c, files))
      (file : Path) (asked : ask file) :
      Asking ask w (c.get file files).2
  | clear {w : Cache × FileTree} {c : Cache} {files : FileTree} (before : Asking ask w (c, files)) :
      Asking ask w (c.clear, files)

variable {ask : Path → Prop}

theorem Asking.trees {v w : Cache × FileTree} (asking : Asking ask v w) :
    v.1.trees.toList <+: w.1.trees.toList := by
  induction asking with
  | refl => exact List.prefix_rfl
  | get _ file _ ih => exact ih.trans (prefix_trees_get ..)
  | clear _ ih => exact ih

theorem Asking.prewarm {w : Cache × FileTree} {c : Cache} {files : FileTree}
    (before : Asking ask w (c, files)) {paths : List Path}
    (asked : ∀ p ∈ paths, ask p) : Asking ask w (c.prewarm paths files) := by
  unfold Cache.prewarm
  have missing : ∀ p ∈ paths.filter (fun p => !c.contains p), ask p :=
    fun p mem => asked p (List.mem_filter.mp mem).1
  generalize paths.filter (fun p => !c.contains p) = missed at missing
  induction missed generalizing c files with
  | nil => exact before
  | cons p missed ih =>
    exact ih (before.get p (missing p List.mem_cons_self)) fun q mem => missing q (List.mem_cons_of_mem p mem)

/-- Without a disk, a file that holds its own dump has the tree that is read from it, under whatever
number. -/
structure Reads (c : Cache) (files : FileTree) (file : Path) (tree : Option Ast) : Prop where
  content : c.dumper = .content
  inMemory : c.disk = none
  parsed : (c.dumper.parse files file).1 = tree
  held {id : Option Nat} : c.memory.get? file = some id → id.map (c.trees[·]?) = tree.map some

section Reads

variable {c : Cache} {files : FileTree} {file : Path} {tree : Option Ast}

theorem Reads.answer (reads : c.Reads files file tree) :
    (c.get file files).1.map ((c.get file files).2.1.trees[·]?) = tree.map some := by
  obtain ⟨id, known, got⟩ | ⟨-, ⟨failed, parses, got⟩ | ⟨a, made, got⟩⟩ :=
    get_cases reads.content reads.inMemory file files
  · rw [got]
    exact reads.held known
  · rw [got, ← reads.parsed, failed]
    rfl
  · rw [got, ← reads.parsed, made]
    exact congrArg some Array.getElem?_push_size

theorem Reads.get (reads : c.Reads files file tree) {other : Path}
    (spelled : other.same file = true → other = file) :
    (c.get other files).2.1.Reads files file tree := by
  obtain ⟨id, known, got⟩ | ⟨-, ⟨failed, parses, got⟩ | ⟨a, made, got⟩⟩ :=
    get_cases reads.content reads.inMemory other files
  · rw [got]
    exact { reads with }
  · rw [got]
    refine { reads with held := fun {id} known => ?_ }
    have known : (c.memory.insert other none).get? file = some id := known
    rw [PathMap.insert, PathMap.get?_update] at known
    -- Memory knows a file by its parts, but it is read by its text: the two have to be spelled
    -- alike.
    split at known
    · rename_i same
      cases known
      rw [← reads.parsed, ← spelled same, failed]
      rfl
    · exact reads.held known
  · rw [got]
    refine { reads with held := fun {id} known => ?_ }
    have known : (c.memory.insert other (some c.trees.size)).get? file = some id := known
    show id.map ((c.trees.push a)[·]?) = _
    rw [PathMap.insert, PathMap.get?_update] at known
    split at known
    · rename_i same
      cases known
      rw [← reads.parsed, ← spelled same, made]
      exact congrArg some Array.getElem?_push_size
    · have before := reads.held known
      cases id with
      | none => exact before
      | some n =>
        obtain ⟨b, -, there⟩ := Option.map_eq_some_iff.mp before.symm
        have inside := (Array.getElem?_eq_some_iff.mp there.symm).1
        rw [← before, Option.map_some, Option.map_some, Array.getElem?_push_lt inside,
          Array.getElem?_eq_getElem inside]

theorem Reads.asking (reads : c.Reads files file tree)
    (spelled : ∀ p, ask p → p.same file = true → p = file) {w : Cache × FileTree}
    (asking : Asking ask (c, files) w) : w.2 = files ∧ w.1.Reads files file tree := by
  induction asking with
  | refl => exact ⟨rfl, reads⟩
  | @get c' files' _ p asked ih =>
    obtain ⟨rfl, reads⟩ := ih
    exact ⟨(get_of_content reads.content reads.inMemory p files').2, reads.get (spelled p asked)⟩
  | clear _ ih => exact ⟨ih.1, { ih.2 with held := fun known => nomatch known }⟩

end Reads

end Cache

namespace Session

open Analysis

variable {R : Regime} {s t u : Session}

/-! ## Reports -/

structure Orderly (s : Session) : Prop where
  tidy : s.diagnostics.Tidy
  reported {file : Path} : s.failed.contains file = true →
      s.diagnostics.has (.onFile file .error "failed to parse") = true

theorem has_of_prefix {ds ds' : Diagnostics} {d : Diagnostic}
    (longer : ds.forFile d.file <+: ds'.forFile d.file)
    (there : ds.has d = true) : ds'.has d = true := by
  obtain ⟨x, mem, same⟩ := List.any_eq_true.mp there
  exact List.any_eq_true.mpr ⟨x, longer.subset mem, same⟩

theorem Orderly.push (orderly : s.Orderly) (d : Diagnostic) :
    Orderly { s with diagnostics := s.diagnostics.push d } :=
  ⟨orderly.tidy.push d, fun there =>
    has_of_prefix (s.diagnostics.prefix_forFile_push d _) (orderly.reported there)⟩

theorem Orderly.recordFailure (orderly : s.Orderly) (file : Path) : (s.recordFailure file).Orderly := by
  have pushed := orderly.push (.onFile file .error "failed to parse")
  refine ⟨pushed.tidy, fun {other} there => ?_⟩
  obtain before | same := PathSet.contains_of_insert there
  · exact pushed.reported before
  · show ((s.diagnostics.push _).forFile other).any _ = true
    rw [Diagnostics.forFile_congr _ same]
    exact s.diagnostics.has_push (.onFile file .error "failed to parse")

theorem Change.orderly (change : Change R s t) (orderly : s.Orderly) : t.Orderly := by
  cases change with
  | update step =>
    cases step with
    | report node id => exact { orderly.push (s.unboundReport node id) with }
    | recordFailure file => exact orderly.recordFailure file
    | clearFailure file =>
      exact ⟨orderly.tidy, fun there => orderly.reported (PathSet.contains_of_erase there).1⟩
    | _ => exact ⟨orderly.tidy, orderly.reported⟩
  | _ => exact ⟨orderly.tidy, orderly.reported⟩

def usedWarnings (s : Session) : List Diagnostic :=
  (s.reportable.filter (fun b => !b.isUnused)).map s.unusedWarning

def unusedWarnings (s : Session) : List Diagnostic :=
  (s.reportable.filter Binding.isUnused).map s.unusedWarning

theorem diagnostics_reportUnused (s : Session) :
    s.reportUnused.diagnostics = s.diagnostics.revise s.usedWarnings s.unusedWarnings := rfl

theorem ended_eq (s : Session) :
    s.ended = { s with
      diagnostics := s.diagnostics.revise s.usedWarnings s.unusedWarnings, phase := .done } := rfl

theorem Orderly.reportUnused (orderly : s.Orderly) : s.reportUnused.Orderly := by
  refine ⟨orderly.tidy.revise .., fun {file} there => ?_⟩
  rw [Diagnostics.has_iff, diagnostics_reportUnused, Diagnostics.mem_content_revise]
  refine .inl ⟨Diagnostics.has_iff.mp (orderly.reported there), fun d mem _ same => ?_⟩
  obtain ⟨b, -, rfl⟩ := List.mem_map.mp mem
  exact failed_ne_unused b.name (congrArg (fun k : UInt64 × UInt64 × String => k.2.2) same).symm

theorem Act.orderly (step : Act s t) (idle : s.Idle) (orderly : s.Orderly) : t.Orderly := by
  cases step with
  | advance step =>
    cases step with
    | begin | prewarm => exact ⟨orderly.tidy, orderly.reported⟩
    | load path force => exact (runs_load s.sound_any idle.depth path force).keeps Change.orderly orderly
    | drain id =>
      have left := (runs_apply s.sound_any idle.depth id).keeps Change.orderly orderly
      exact ⟨left.tidy, left.reported⟩
  | removeFile path =>
    refine ⟨orderly.tidy.removeFile _, fun {file} there => ?_⟩
    obtain ⟨before, other⟩ := PathSet.contains_of_erase there
    have kept := s.diagnostics.forFile_removeFile (s.files.settle path) file
    rw [other, if_neg Bool.false_ne_true] at kept
    show ((s.diagnostics.removeFile (s.files.settle path)).forFile file).any _ = true
    rw [kept]
    exact orderly.reported before
  | reportUnused => exact orderly.reportUnused
  | edit | setStatic | clearCache => exact ⟨orderly.tidy, orderly.reported⟩

theorem Passed.orderly (passed : Passed s) : s.Orderly := by
  induction passed with
  | new made =>
    rw [new_eq made]
    exact ⟨Diagnostics.tidy_empty, fun there => (nomatch there)⟩
  | act before step orderly => exact step.orderly before.idle orderly

/-! ## What stands -/

structure Stands (s t : Session) : Prop where
  options : t.options = s.options
  registry : t.registry = s.registry
  diagnostics : t.diagnostics = s.diagnostics
  loaded : t.loaded = s.loaded
  failed : t.failed = s.failed
  resolved : t.resolved = s.resolved
  unresolved : t.unresolved = s.unresolved
  calls : t.calls = s.calls
  uncalled : t.uncalled = s.uncalled
  importStack : t.importStack = s.importStack

theorem stands_of (s : Session) (cache : Cache) (files : FileTree) (phase : Phase)
    (projectDir : Option Path) :
    Stands s { s with cache, files, phase, projectDir } := ⟨rfl, rfl, rfl, rfl, rfl, rfl, rfl, rfl, rfl, rfl⟩

/-- What the loading of a project asks for: its source files, as they are listed and where they
stand. -/
def Asked (s : Session) (top file : Path) : Prop := ∃ f ∈ s.sources top, file = f ∨ file = s.files.settle f

/-- A source file is done with: it is loaded, or it could not be parsed, or it is too large; and so
it stays, whatever the loading of its project asks for. -/
def DoneWith (s : Session) (top f : Path) : Prop :=
  ∀ w, Cache.Asking (s.Asked top) (s.cache, s.files) w → w.2.settle f = s.files.settle f ∧
    (s.loaded.contains (s.files.settle f) = true ∨
      s.failed.contains (s.files.settle f) = true ∧ (w.1.get (s.files.settle f) w.2).1 = none ∨
      ∃ tree, (w.1.get (s.files.settle f) w.2).1 = some tree ∧
        s.options.maxNodes < ((w.1.get (s.files.settle f) w.2).2.1.trees[tree]?.getD default).size)

/-- Without a disk, a file that holds its own dump stays done with: its tree is the same whenever it
is read. -/
theorem doneWith_of_reads {top f : Path} {tree : Option Ast}
    (reads : s.cache.Reads s.files (s.files.settle f) tree)
    (spelled : ∀ p, s.Asked top p → p.same (s.files.settle f) = true → p = s.files.settle f)
    (done : s.loaded.contains (s.files.settle f) = true ∨
      s.failed.contains (s.files.settle f) = true ∧ tree = none ∨
      ∃ a, tree = some a ∧ s.options.maxNodes < a.size) : s.DoneWith top f := by
  intro w asking
  obtain ⟨same, reads⟩ := reads.asking spelled asking
  rw [same]
  refine ⟨rfl, done.imp_right (Or.imp (fun ⟨failed, unread⟩ => ⟨failed, ?_⟩) fun ⟨a, read, large⟩ => ?_)⟩
  · exact Option.map_eq_none_iff.mp (unread ▸ reads.answer)
  · obtain ⟨id, got, here⟩ := Option.map_eq_some_iff.mp (read ▸ reads.answer)
    refine ⟨id, got, ?_⟩
    rw [here]
    exact large

theorem loadFile_stands {top f : Path} (idle : s.Idle) (orderly : s.Orderly)
    (mem : f ∈ s.sources top) (done : s.DoneWith top f)
    (stands : Stands s t) (asking : Cache.Asking (s.Asked top) (s.cache, s.files) (t.cache, t.files)) :
    Stands s (t.loadFile f).2 ∧
      Cache.Asking (s.Asked top) (s.cache, s.files) ((t.loadFile f).2.cache, (t.loadFile f).2.files) := by
  obtain ⟨same, outcome⟩ := done _ asking
  have outside : t.importStack.contains (s.files.settle f) = false := by
    rw [stands.importStack, PathSet.contains, idle.importStack]
    rfl
  have got : Cache.Asking (s.Asked top) (s.cache, s.files) (t.cache.get (s.files.settle f) t.files).2 :=
    asking.get _ ⟨f, mem, .inr rfl⟩
  unfold loadFile load
  rw [run_get, run_get, same, outside, if_neg Bool.false_ne_true, run_get, stands.loaded]
  cases loaded : s.loaded.contains (s.files.settle f) with
  | true => exact ⟨stands, asking⟩
  | false =>
    rw [loaded] at outcome
    rw [if_neg (by simp), run_modifyGet]
    obtain ⟨failed, unread⟩ | ⟨tree, read, large⟩ := outcome.resolve_left Bool.false_ne_true
    -- It is reported once more that the file cannot be parsed, which is known.
    · have nothing : (t.fetch (s.files.settle f)).1 = none := unread
      have known : t.diagnostics.push (.onFile (s.files.settle f) .error "failed to parse") =
          s.diagnostics := by
        rw [stands.diagnostics]
        exact orderly.tidy.push_of_has (orderly.reported failed)
      have noted : t.failed.insert (s.files.settle f) = s.failed := by
        rw [stands.failed]
        exact PathSet.insert_of_contains failed
      rw [nothing]
      exact ⟨{ stands with diagnostics := known, failed := noted }, got⟩
    -- A file that is too large is passed over.
    · have fetched : (t.fetch (s.files.settle f)).1 = some tree := read
      rw [← stands.options] at large
      rw [fetched]
      dsimp only
      rw [run_get, if_pos (by exact large)]
      exact ⟨{ stands with }, got.clear⟩

theorem loadAll_stands {top : Path} (idle : s.Idle) (orderly : s.Orderly) {files : List Path}
    (listed : files ⊆ s.sources top) (done : ∀ f ∈ files, s.DoneWith top f) (stands : Stands s t)
    (asking : Cache.Asking (s.Asked top) (s.cache, s.files) (t.cache, t.files)) :
    Stands s (t.loadAll files) ∧
      Cache.Asking (s.Asked top) (s.cache, s.files)
      ((t.loadAll files).cache, (t.loadAll files).files) := by
  unfold loadAll
  induction files generalizing t with
  | nil => exact ⟨stands, asking⟩
  | cons f files ih =>
    obtain ⟨here, later⟩ := List.cons_subset.mp listed
    obtain ⟨first, rest⟩ := List.forall_mem_cons.mp done
    rw [List.foldl_cons]
    split
    · exact ih later rest stands asking
    · obtain ⟨stands, asking⟩ := loadFile_stands idle orderly here first stands asking
      exact ih later rest stands asking

theorem warmed_stands (on : Bool) {ask : Path → Prop} {w : Cache × FileTree} {files : List Path}
    (asked : ∀ f ∈ files, ask f)
    (stands : Stands s t) (asking : Cache.Asking ask w (t.cache, t.files)) :
    Stands s (if on then t.prewarm files else t) ∧
      Cache.Asking ask w ((if on then t.prewarm files else t).cache,
        (if on then t.prewarm files else t).files) := by
  cases on with
  | false => exact ⟨stands, asking⟩
  | true => exact ⟨{ stands with }, asking.prewarm asked⟩

theorem analyze_stands {root top : Path} (idle : s.Idle) (orderly : s.Orderly)
    (there : s.files.canonical root = .ok top) (done : ∀ f ∈ s.sources top, s.DoneWith top f) :
    ∃ t, s.analyze root = .ok t ∧ Stands s t ∧
      Cache.Asking (s.Asked top) (s.cache, s.files) (t.cache, t.files) := by
  unfold analyze
  rw [there]
  refine ⟨_, rfl, ?_⟩
  have asked : ∀ f ∈ s.sources top, s.Asked top f := fun f mem => ⟨f, mem, .inl rfl⟩
  obtain ⟨stands, asking⟩ :=
    warmed_stands s.options.prewarm asked (s.stands_of s.cache s.files .loading _) (.refl _)
  exact loadAll_stands idle orderly (List.Subset.refl _) done stands asking

/-! ## The scan again -/

def landmarks (s : Session) : List (String × BindingKind × Path × Span) :=
  s.registry.all.map fun entry => (entry.2.qname, entry.2.kind, entry.2.file, s.span entry.2.node)

theorem Accounted.span_eq (accounted : s.Accounted)
    (trees : s.cache.trees.toList <+: t.cache.trees.toList) {id : BindingId}
    {b : Binding} (live : s.registry.get? id = some b) : t.span b.node = s.span b.node := by
  have rooted := accounted.rooted (Registry.definition?_eq_some.mpr ⟨b, live, rfl⟩)
  exact congrArg (fun a : Ast => a.span b.node.id) (tree_retained trees rooted)

theorem landmarks_stands (accounted : s.Accounted) (registry : t.registry = s.registry)
    (trees : s.cache.trees.toList <+: t.cache.trees.toList) :
    t.landmarks = s.landmarks := by
  unfold landmarks
  rw [registry]
  refine List.map_congr_left fun entry mem => ?_
  rw [accounted.span_eq trees (Registry.mem_all.mp mem)]

theorem warnings_stands (accounted : s.Accounted) (registry : t.registry = s.registry)
    (trees : s.cache.trees.toList <+: t.cache.trees.toList) :
    t.usedWarnings = s.usedWarnings ∧ t.unusedWarnings = s.unusedWarnings := by
  have reportable : t.reportable = s.reportable := by
    unfold Session.reportable
    rw [registry]
  have same : ∀ b ∈ s.reportable, t.unusedWarning b = s.unusedWarning b := by
    intro b mem
    obtain ⟨⟨id, live⟩, -⟩ := mem_reportable.mp mem
    unfold unusedWarning
    rw [accounted.span_eq trees live]
  unfold usedWarnings unusedWarnings
  rw [reportable]
  exact ⟨List.map_congr_left fun b mem => same b (List.mem_filter.mp mem).1,
    List.map_congr_left fun b mem => same b (List.mem_filter.mp mem).1⟩

theorem summary_of_counts (loaded : t.loaded = s.loaded) (failed : t.failed = s.failed)
    (registry : t.registry = s.registry)
    (resolved : t.resolved = s.resolved) (unresolved : t.unresolved = s.unresolved)
    (calls : t.calls = s.calls) (total : t.diagnostics.total = s.diagnostics.total)
    (problems : t.diagnostics.filesWithProblems = s.diagnostics.filesWithProblems) :
    t.summary = s.summary := by
  unfold summary
  rw [loaded, failed, registry, resolved, unresolved, calls, total, problems]

theorem summary_ended_stands (orderly : s.Orderly) (accounted : s.Accounted) (stands : Stands s.ended t)
    (trees : s.cache.trees.toList <+: t.cache.trees.toList) : t.ended.summary = s.ended.summary := by
  rw [ended_eq] at stands
  obtain ⟨used, unused⟩ := warnings_stands accounted stands.registry trees
  -- The second scan revises what the first has revised, with the same warnings.
  obtain ⟨total, problems⟩ := orderly.tidy.counts_revise_revise s.usedWarnings s.unusedWarnings
  rw [ended_eq t, ended_eq s, used, unused, stands.diagnostics]
  exact summary_of_counts stands.loaded stands.failed stands.registry stands.resolved
    stands.unresolved stands.calls total problems

/-- **Analyzing a project again.** After a project has been analyzed and the analysis has ended, all
counts and all live bindings stay as they are when it is analyzed and ended again, provided that
each of its source files is loaded, or could not be parsed, or is too large. -/
theorem reanalysis_keeps (reached : Reachable s) {root : Path} (analyzed : s.analyze root = .ok t)
    {rounds : Nat} {before : Summary}
    (ends : finish? rounds t = some (before, u)) {top : Path} (there : u.files.canonical root = .ok top)
    (done : ∀ f ∈ u.sources top, u.DoneWith top f) :
    ∃ v after w, u.analyze root = .ok v ∧ (∀ more, finish? more v = some (after, w)) ∧ after = before ∧
      w.landmarks = u.landmarks := by
  have again := (reached.analyze analyzed).finish ends
  obtain ⟨last, drained, same⟩ := Option.map_eq_some_iff.mp (finish?_eq rounds t ▸ ends)
  cases same
  have passed : Passed last :=
    ((reached.analyze analyzed).passed.act (.advance (.begin .fixpoint t.projectDir))).advances
    (advances_drain drained)
  obtain ⟨-, -, emptied⟩ := emptied_of_drain? drained
  obtain ⟨v, done, stands, asking⟩ := analyze_stands again.passed.idle again.passed.orderly there done
  have begun : Stands last.ended { v with phase := .fixpoint } := { stands with }
  refine ⟨v, _, ended { v with phase := .fixpoint }, done, fun more => ?_,
    summary_ended_stands passed.orderly passed.accounted begun asking.trees,
    landmarks_stands again.passed.accounted stands.registry asking.trees⟩
  have still : (drainRound^[0] { v with phase := .fixpoint }).uncalled = [] := stands.uncalled.trans emptied
  rw [finish?_eq, drain?_of_emptied still (Nat.zero_le more)]
  rfl

def beforeThree (maxDepth : Nat) : Session where
  options := { cacheDir := ⟨"cache"⟩, diskCache := false, maxDepth, maxNodes := 4 }
  files :=
    { root := .folder [("a.rb", .file assignment.toUTF8), ("b.rb", .file "?".toUTF8),
      ("c.rb", .file selfRequiring.toUTF8)] }
  cache := { dumper := .content }

theorem analyze_three (deep : Bool) :
    ∃ t, (beforeThree (deep.toNat + 1)).analyze ⟨"/"⟩ = .ok t ∧ (finish? 0 t).any (fun (before, u) =>
      (u.sources ⟨"/"⟩ = [⟨"/a.rb"⟩, ⟨"/b.rb"⟩, ⟨"/c.rb"⟩] ∧ u.files.canonical ⟨"/"⟩ = .ok ⟨"/"⟩ ∧
        (∀ f ∈ u.sources ⟨"/"⟩, u.files.settle f = f) ∧ ∀ f ∈ u.sources ⟨"/"⟩,
        ∀ p ∈ u.sources ⟨"/"⟩, p.same f = true → p = f) ∧
      (u.cache.disk = none ∧ (u.cache.dumper matches .content) ∧ ∀ f ∈ u.sources ⟨"/"⟩,
        u.cache.memory.get? f = none) ∧
      (∀ f ∈ u.sources ⟨"/"⟩, u.loaded.contains f = deep ∧ f = ⟨"/a.rb"⟩ ∨
        u.failed.contains f = true ∧ (u.cache.dumper.parse u.files f).1 = none ∨
        ((u.cache.dumper.parse u.files f).1.any fun a => u.options.maxNodes < a.size) = true) ∧
      before.definitions = 1 ∧ (u.analyze ⟨"/"⟩).toOption.any (fun v => (finish? 0 v).any fun (after, w) =>
        after.definitions = 2 - deep.toNat ∧ w.landmarks.length = 2 - deep.toNat)) = true := by
  cases deep <;> exact ⟨_, rfl, by decide +kernel⟩

theorem reanalysis_keeps_three :
    ∃ s t u before, Reachable s ∧ s.analyze ⟨"/"⟩ = .ok t ∧ finish? 0 t = some (before, u) ∧
      before.definitions = 1 ∧
      u.sources ⟨"/"⟩ = [⟨"/a.rb"⟩, ⟨"/b.rb"⟩, ⟨"/c.rb"⟩] ∧ (∀ f ∈ u.sources ⟨"/"⟩, u.DoneWith ⟨"/"⟩ f) ∧
      ∃ v after w, u.analyze ⟨"/"⟩ = .ok v ∧ (∀ more, finish? more v = some (after, w)) ∧ after = before ∧
        w.landmarks = u.landmarks := by
  have fresh : Reachable (beforeThree 2) := reachable_empty _ _ rfl rfl
  obtain ⟨t, analyzed, ends⟩ := analyze_three true
  obtain ⟨⟨before, u⟩, ended, facts⟩ := (Option.any_eq_true ..).mp ends
  obtain ⟨⟨sources, there, settled, spelled⟩, ⟨disk, dumper, memory⟩, outcome, definitions, -⟩ :=
    of_decide_eq_true facts
  have content : u.cache.dumper = .content := by
    cases held : u.cache.dumper with
    | content => rfl
    | command =>
      rw [held] at dumper
      cases dumper
  have done : ∀ f ∈ u.sources ⟨"/"⟩, u.DoneWith ⟨"/"⟩ f := by
    intro f mem
    have reads : u.cache.Reads u.files f (u.cache.dumper.parse u.files f).1 :=
      ⟨content, disk, rfl, fun known => nomatch (memory f mem).symm.trans known⟩
    rw [← settled f mem] at reads
    apply doneWith_of_reads reads <;> rw [settled f mem]
    · rintro p ⟨g, listed, rfl | rfl⟩
      · exact spelled f mem p listed
      · rw [settled g listed]
        exact spelled f mem g listed
    · refine (outcome f mem).imp And.left (Or.imp_right fun large => ?_)
      obtain ⟨a, read, large⟩ := (Option.any_eq_true ..).mp large
      exact ⟨a, read, of_decide_eq_true large⟩
  exact ⟨_, t, u, before, fresh, analyzed, ended, definitions, sources, done,
    reanalysis_keeps fresh analyzed ended there done⟩

/-- The value that is assigned is too deep: the file does not count as loaded, and it is read and
bound again. -/
theorem reanalysis_rebinds :
    ∃ s t u v w before after, Reachable s ∧ s.analyze ⟨"/"⟩ = .ok t ∧
      finish? 0 t = some (before, u) ∧ u.analyze ⟨"/"⟩ = .ok v ∧
      finish? 0 v = some (after, w) ∧ before.definitions = 1 ∧ after.definitions = 2 ∧
      w.landmarks.length = 2 := by
  have fresh : Reachable (beforeThree 1) := reachable_empty _ _ rfl rfl
  obtain ⟨t, analyzed, ends⟩ := analyze_three false
  obtain ⟨⟨before, u⟩, ended, facts⟩ := (Option.any_eq_true ..).mp ends
  obtain ⟨-, -, -, one, again⟩ := of_decide_eq_true facts
  obtain ⟨v, repeated, ends⟩ := (Option.any_eq_true ..).mp again
  obtain ⟨⟨after, w⟩, endedAgain, counts⟩ := (Option.any_eq_true ..).mp ends
  obtain ⟨two, bound⟩ := of_decide_eq_true counts
  cases outcome : u.analyze ⟨"/"⟩ with
  | error e =>
    rw [outcome] at repeated
    cases repeated
  | ok v' =>
    rw [outcome] at repeated
    cases repeated
    exact ⟨_, t, u, v, w, before, after, fresh, analyzed, ended, outcome, endedAgain, one, two, bound⟩

/-! ## Ending again -/

theorem diagnostics_ended (s : Session) : s.ended.diagnostics =
    s.diagnostics.revise s.usedWarnings s.unusedWarnings := rfl

theorem ended_again (s : Session) :
    ended { s.ended with phase := .fixpoint } =
      { s.ended with diagnostics := s.ended.diagnostics.revise s.usedWarnings s.unusedWarnings } := by
  rw [ended_eq { s.ended with phase := .fixpoint }]
  rfl

/-- **Ending twice.** Once an analysis has ended, no function is left to apply, and however often it
is ended again the counts are the same and nothing changes, except that the reports of a file may
change places: a warning about a used binding takes with it that about an unused one of the same
name and range, which is then made anew. -/
theorem finish_again (reached : Reachable s) {rounds : Nat} {summary : Summary}
    (ends : finish? rounds s = some (summary, t)) :
    ∃ u, (∀ more, drain? more { t with phase := .fixpoint } = some { t with phase := .fixpoint } ∧
        finish? more t = some (summary, u)) ∧
      u = { t with diagnostics := u.diagnostics } ∧ u.diagnostics.files = t.diagnostics.files ∧
      ∀ file, (u.diagnostics.forFile file).Perm (t.diagnostics.forFile file) := by
  obtain ⟨last, drained, same⟩ := Option.map_eq_some_iff.mp (finish?_eq rounds s ▸ ends)
  obtain ⟨counted, rfl⟩ := Prod.mk.inj same
  have started := reached.passed.act (.advance (.begin .fixpoint s.projectDir))
  have tidy := (started.advances (advances_drain drained)).orderly.tidy
  obtain ⟨-, -, emptied⟩ := emptied_of_drain? drained
  have first := last.diagnostics_ended
  have again := last.ended_again
  rw [← last.uncalled_ended] at emptied
  -- From here on the ended session counts only by its warnings, which are those of the session
  -- before.
  generalize last.ended = t at counted first again emptied ⊢
  obtain ⟨total, problems⟩ := tidy.counts_revise_revise last.usedWarnings last.unusedWarnings
  have files := last.diagnostics.files_revise_revise last.usedWarnings last.unusedWarnings
  have same := tidy.perm_revise_revise last.usedWarnings last.unusedWarnings
  rw [← first] at total problems files same
  have still (more : Nat) : drain? more { t with phase := .fixpoint } = some { t with phase := .fixpoint } :=
    drain?_of_emptied (k := 0) emptied (Nat.zero_le more)
  refine ⟨{ t with diagnostics := t.diagnostics.revise last.usedWarnings last.unusedWarnings },
    fun more => ⟨still more, ?_⟩, rfl, files, same⟩
  have counts : Session.summary
      { t with diagnostics := t.diagnostics.revise last.usedWarnings last.unusedWarnings } =
      t.summary :=
    summary_of_counts rfl rfl rfl rfl rfl rfl total problems
  rw [finish?_eq, still, Option.map_some, again, counts, counted]

/-- A dump in which `x` is assigned and read, then is the parameter of a lambda that does not read
it, and a second lambda assigns `z`. -/
def sharedName : String :=
  let name (id : String) := "\x7b\"type\":\"name\",\"id\":\"" ++ id ++ "\"\x7d"
  let assign (id : String) :=
    "\x7b\"type\":\"assign\",\"target\":" ++ name id ++ ",\"value\":\x7b\"type\":\"void\"\x7d\x7d"
  let lambda (params body : String) :=
    "\x7b\"type\":\"lambda\",\"params\":\x7b\"positional\":[" ++ params ++ "]\x7d,\"body\":" ++ body ++ "\x7d"
  "\x7b\"type\":\"block\",\"stmts\":[" ++ assign "x" ++ "," ++ name "x" ++ "," ++
    lambda (name "x") "\x7b\"type\":\"void\"\x7d" ++
    "," ++ lambda "" (assign "z") ++ "]\x7d"

def beforeSharedName : Session where
  options := { cacheDir := ⟨"cache"⟩, diskCache := false }
  files := { root := .folder [("a.rb", .file sharedName.toUTF8)] }
  cache := { dumper := .content }

/-- Both `x` have the same range. The warning about the second one is taken back and made again, and
so comes after that about `z`. -/
theorem finish_again_shared :
    ∃ s t u summary, Reachable s ∧ finish? 1 s = some (summary, t) ∧ finish? 0 t = some (summary, u) ∧
      (t.diagnostics.forFile ⟨"/a.rb"⟩).map Diagnostic.message =
        ["unused variable: x", "unused variable: z"] ∧
      (u.diagnostics.forFile ⟨"/a.rb"⟩).map Diagnostic.message =
        ["unused variable: z", "unused variable: x"] ∧
      (u.diagnostics.forFile ⟨"/a.rb"⟩).Perm (t.diagnostics.forFile ⟨"/a.rb"⟩) := by
  have fresh : Reachable beforeSharedName := reachable_empty _ _ rfl rfl
  have ends : (finish? 1 (beforeSharedName.loadFile ⟨"/a.rb"⟩).2).any (fun (_, t) =>
      (t.diagnostics.forFile ⟨"/a.rb"⟩).map Diagnostic.message =
        ["unused variable: x", "unused variable: z"] ∧ (finish? 0 t).any fun (_, u) =>
          (u.diagnostics.forFile ⟨"/a.rb"⟩).map Diagnostic.message =
            ["unused variable: z", "unused variable: x"]) = true := by
    decide +kernel
  obtain ⟨⟨summary, t⟩, ended, facts⟩ := (Option.any_eq_true ..).mp ends
  obtain ⟨before, again⟩ := of_decide_eq_true facts
  obtain ⟨u, repeats, -, -, same⟩ := finish_again (fresh.loadFile _) ended
  obtain ⟨-, endedAgain⟩ := repeats 0
  rw [endedAgain, Option.any_some, decide_eq_true_eq] at again
  exact ⟨_, t, u, summary, fresh.loadFile _, ended, endedAgain, before, again, same _⟩

end Session

end RubyInfer
