import RubyInfer.Proofs.Session.Elsewhere

/-!
# What is on record of a file

A file that is loaded and a file that could not be parsed are two sets, and a failure is reported as
well. The three are changed by different steps of a load. They agree as long as a file, once it is
on record, is found as it is recorded whenever it is read again (`load_outcomes`); if it is not,
nothing takes the older record back (`outcome_overlap`).
-/

namespace RubyInfer

/-- The tree of a file is asked for while the file is not being loaded, and the answer is not what
is on record: there is none although the file is loaded, or there is one that fits although the file
has failed. -/
def Event.Belies (file : Path) : Event → Prop
  | visit _ _ _ => False
  | change m n => ∃ f, f.same file = true ∧ n = (m.fetch f).2 ∧ m.importStack.contains f = false ∧
      (m.loaded.contains file = true ∧ (m.fetch f).1 = none ∨
        m.failed.contains file = true ∧ ∃ tree, (m.fetch f).1 = some tree ∧
          ((m.fetch f).2.cache.trees[tree]?.getD default).size ≤ m.options.maxNodes)

def Event.remembers (file : Path) : Event → Bool
  | visit _ _ _ => true
  | change m _ => !m.loaded.contains file &&
      (!m.failed.contains file || m.cache.memory.get? file == some none)

theorem Event.not_belies {file : Path} {e : Event} (known : e.remembers file = true) : ¬e.Belies file := by
  cases e with
  | visit => exact id
  | change m n =>
    rw [remembers, Bool.and_eq_true, Bool.not_eq_true'] at known
    rintro ⟨f, same, -, -, ⟨loaded, -⟩ | ⟨failed, tree, present, -⟩⟩
    · exact absurd loaded (Bool.eq_false_iff.mp known.1)
    · have kept : m.cache.memory.get? f = some none := by
        rw [PathMap.get?_congr same]
        simpa [failed] using known.2
      have answer : (m.fetch f).1 = none := by
        rcases m.cache.get_outcome f m.files with ⟨id, found, got⟩ | ⟨missing, -⟩
        · rw [kept] at found
          cases found
          exact congrArg (·.1) got
        · rw [kept] at missing
          cases missing
      rw [answer] at present
      cases present

namespace Session

open Analysis

variable {p : Prop} {o : Option NodeRef} {s t : Session} {events : List Event} {file : Path} {path : Path}

/-! ## Loading -/

structure Settled (s : Session) (file : Path) : Prop where
  apart : s.loaded.contains file = true → s.failed.contains file = false
  told : s.failed.contains file = true ↔ s.diagnostics.failures file ≠ []
  opened : s.importStack.contains file = true → s.failed.contains file = false

theorem settled_of_not_failed (failed : s.failed.contains file = false)
    (untold : s.diagnostics.failures file = []) : s.Settled file :=
  ⟨fun _ => failed, by simp [failed, untold], fun _ => failed⟩

theorem Settled.untold (settled : s.Settled file) (failed : s.failed.contains file = false) :
    s.diagnostics.failures file = [] := by
  have told := settled.told
  rw [failed] at told
  simpa using told

theorem Settled.congr (settled : s.Settled file) (loaded : t.loaded.contains file = s.loaded.contains file)
    (failed : t.failed.contains file = s.failed.contains file)
    (failures : t.diagnostics.failures file = s.diagnostics.failures file)
    (opened : t.importStack.contains file = s.importStack.contains file) : t.Settled file := by
  constructor
  · rw [loaded, failed]
    exact settled.apart
  · rw [failed, failures]
    exact settled.told
  · rw [opened, failed]
    exact settled.opened

theorem Quiet.settled (quiet : Quiet s t) (settled : s.Settled file) : t.Settled file :=
  settled.congr (by rw [quiet.loaded]) (by rw [quiet.failed]) (quiet.failures file)
    (by rw [quiet.importStack])

theorem Settled.recordFailure (settled : s.Settled file) {f : Path} (fresh : s.importStack.contains f = false)
    (unloaded : f.same file = true → s.loaded.contains file = false) : (s.recordFailure f).Settled file := by
  have failed : (s.recordFailure f).failed.contains file =
      (s.failed.contains file || file.same f) := s.failed.contains_insert f file
  cases same : f.same file with
  | true =>
    have told := s.diagnostics.failures_push_self (d := .onFile f .error "failed to parse") same rfl
    rw [Path.same_comm, same, Bool.or_true] at failed
    refine ⟨fun loaded => ?_, iff_of_true failed told, fun opened => ?_⟩
    · exact absurd loaded (Bool.eq_false_iff.mp (unloaded same))
    · exact absurd ((PathSet.contains_congr same _).trans opened) (Bool.eq_false_iff.mp fresh)
  | false =>
    have untold := s.diagnostics.failures_push (d := .onFile f .error "failed to parse") (.inr same)
    rw [Path.same_comm, same, Bool.or_false] at failed
    exact settled.congr rfl failed untold rfl

theorem Settled.load {f : Path} (settled : s.Settled file)
    (unfailed : f.same file = true → s.failed.contains file = false)
    (inside : ((s.found f).openFile f).Settled file → t.Settled file)
    (steady : Steady ((s.found f).openFile f) t) :
    ((t.closeFile s.cwd f).fileEnded s.depth f).Settled file := by
  have erased : (s.found f).failed.contains file = (s.failed.contains file && !f.same file) :=
    s.failed.contains_erase f file
  have ended (u : Session) : (u.fileEnded s.depth f).failed = u.failed ∧
      (u.fileEnded s.depth f).diagnostics = u.diagnostics ∧
      (u.fileEnded s.depth f).importStack = u.importStack := by
    unfold fileEnded
    split <;> exact ⟨rfl, rfl, rfl⟩
  obtain ⟨failed, diagnostics, importStack⟩ := ended (t.closeFile s.cwd f)
  cases same : f.same file with
  | true =>
    have begun := unfailed same
    rw [begun, Bool.false_and] at erased
    have after := inside (settled_of_not_failed erased (settled.untold begun))
    have open_ : t.importStack.contains file = true := by
      rw [steady.importStack, ← PathSet.contains_congr same]
      exact contains_openFile ..
    refine settled_of_not_failed ?_ ?_
    · rw [failed]
      exact after.opened open_
    · rw [diagnostics]
      exact after.untold (after.opened open_)
  | false =>
    rw [same, Bool.not_false, Bool.and_true] at erased
    have begun : ((s.found f).openFile f).Settled file := by
      refine settled.congr rfl erased rfl ?_
      show (s.importStack.insert f).contains file = _
      rw [PathSet.contains_insert, Path.same_comm, same, Bool.or_false]
    refine (inside begun).congr ?_ (by rw [failed]; rfl) (by rw [diagnostics]; rfl) ?_
    · rw [loaded_fileEnded, Path.same_comm, same, Bool.and_false, Bool.or_false]
      rfl
    · rw [importStack]
      show (t.importStack.erase f).contains file = _
      rw [PathSet.contains_erase, same, Bool.not_false, Bool.and_true]

theorem Course.settled (course : Course p o s events t) (agrees : ∀ e ∈ events, ¬e.Belies file)
    (settled : s.Settled file) :
    t.Settled file := by
  induction course with
  | nil => exact settled
  | append _ _ first second =>
    rw [List.forall_mem_append] at agrees
    exact second agrees.2 (first agrees.1 settled)
  | quiet quiet => exact quiet.settled settled
  | part _ _ visit => exact visit agrees settled
  | refused => exact { settled with }
  | passed => exact settled
  | inside _ _ _ _ _ inner =>
    simp only [List.forall_mem_append] at agrees
    exact { inner agrees.1.2 { settled with } with }
  | @unread _ s f fresh absent =>
    refine Settled.recordFailure (s := (s.fetch f).2) { settled with } fresh fun same => ?_
    refine Bool.eq_false_iff.mpr fun loaded =>
      agrees _ List.mem_cons_self ⟨f, same, rfl, fresh, .inl ⟨loaded, absent⟩⟩
  | oversized => exact { settled with }
  | @load _ s t f tree _ fresh _ present fits root inside =>
    simp only [List.forall_mem_append] at agrees
    refine settled.load (fun same => ?_) (inside agrees.1.2) root.steady
    refine Bool.eq_false_iff.mpr fun failed =>
      agrees.1.1 _ List.mem_cons_self ⟨f, same, rfl, fresh, .inr ⟨failed, tree, present, fits⟩⟩
  | call _ _ _ _ _ body =>
    simp only [List.forall_mem_append] at agrees
    exact { body agrees.1.2 { settled with } with }

/-! ## Operations -/

theorem lasting_settled (file : Path) :
    Lasting fun s events t => (∀ e ∈ events, ¬e.Belies file) → s.Settled file → t.Settled file where
  nil _ _ settled := settled
  append first second agrees settled := by
    rw [List.forall_mem_append] at agrees
    exact second agrees.2 (first agrees.1 settled)
  course := Course.settled
  cleared _ _ settled := { settled with }

theorem unrecorded_removeFile (here : (s.files.settle path).same file = true) :
    (s.removeFile path).loaded.contains file = false ∧ (s.removeFile path).failed.contains file = false ∧
      (s.removeFile path).diagnostics.failures file = [] := by
  have loaded := s.loaded.contains_erase (s.files.settle path) file
  have failed := s.failed.contains_erase (s.files.settle path) file
  have failures := s.diagnostics.failures_removeFile (s.files.settle path) file
  simp only [here, Bool.not_true, Bool.and_false, if_true] at loaded failed failures
  exact ⟨loaded, failed, failures⟩

theorem settled_removeFile
    (here : (s.files.settle path).same file = true) : (s.removeFile path).Settled file := by
  obtain ⟨-, failed, failures⟩ := unrecorded_removeFile here
  exact settled_of_not_failed failed failures

theorem Settled.removeFile (settled : s.Settled file) (path : Path) : (s.removeFile path).Settled file := by
  cases same : (s.files.settle path).same file with
  | true => exact settled_removeFile same
  | false =>
    have loaded := s.loaded.contains_erase (s.files.settle path) file
    have failed := s.failed.contains_erase (s.files.settle path) file
    have failures := s.diagnostics.failures_removeFile (s.files.settle path) file
    simp only [same, Bool.not_false, Bool.and_true, Bool.false_eq_true, if_false] at loaded failed failures
    exact settled.congr loaded failed failures rfl

theorem Settled.ended (settled : s.Settled file) : s.ended.Settled file := by
  have other : ∀ d ∈ s.usedWarnings ++ s.unusedWarnings, d.message ≠ "failed to parse" := by
    intro d mem
    obtain ⟨b, -, rfl⟩ | ⟨b, -, rfl⟩ := (List.mem_append.mp mem).imp List.mem_map.mp List.mem_map.mp
    all_goals exact (failed_ne_unused b.name).symm
  have same : s.ended.diagnostics.failures file = [] ↔ s.diagnostics.failures file = [] := by
    rw [diagnostics_ended, List.eq_nil_iff_forall_not_mem, List.eq_nil_iff_forall_not_mem]
    exact forall_congr' fun x => not_congr (Diagnostics.mem_failures_revise other)
  exact ⟨settled.apart, settled.told.trans (not_congr same).symm, settled.opened⟩

theorem Settled.operation (settled : s.Settled file) (atTop : s.depth = 0) (step : Operation s events t)
    (agrees : ∀ e ∈ events, ¬e.Belies file) : t.Settled file := by
  have lasting := lasting_settled file
  cases step with
  | edit | setStatic | clearCache => exact { settled with }
  | loadFile path => exact lasting.load atTop path false agrees settled
  | removeFile path => exact settled.removeFile path
  | reload path =>
    exact lasting.load (s := s.removeFile path) atTop path true agrees (settled.removeFile path)
  | analyze done =>
    obtain ⟨top, -, rfl, rfl⟩ := tellAnalyze_told atTop done
    obtain ⟨cache, files, projectDir, same⟩ := s.opening_eq top (s.sources top)
    refine lasting.all ((s.depth_opening top _).trans atTop) (s.sources top) agrees ?_
    rw [same]
    exact { settled with }
  | @finish rounds _ _ ended =>
    rw [finish?_eq] at ended
    obtain ⟨last, drained, same⟩ := Option.map_eq_some_iff.mp ended
    cases same
    exact (lasting.drain (s := { s with phase := .fixpoint }) atTop drained agrees { settled with }).ended

theorem run_load_forced {path f : Path} (here : s.files.settle path = f)
    (fresh : s.importStack.contains f = false) (visit : Visit) :
    (Analysis.load visit path true).run s =
      match (s.fetch f).1 with
      | none => (none, (s.fetch f).2.recordFailure f)
      | some tree =>
        if s.options.maxNodes < ((s.fetch f).2.cache.trees[tree]?.getD default).size then
          (none, (s.fetch f).2.skipExhausted)
        else (loadTree visit f tree).run (s.fetch f).2 := by
  subst here
  unfold Analysis.load
  rw [run_get, run_get, fresh, if_neg Bool.false_ne_true, run_get, Bool.not_true, Bool.false_and,
    if_neg Bool.false_ne_true,
    run_modifyGet]
  cases (s.fetch (s.files.settle path)).1 with
  | none => rfl
  | some tree =>
    dsimp only
    rw [run_get]
    show (ite (s.options.maxNodes < _) _ _ : Analysis (Option Ty)).run _ = _
    split <;> rfl

theorem Settled.load_forced (settled : s.Settled file) (atTop : s.depth = 0)
    (unloaded : s.loaded.contains file = false)
    (unfailed : s.failed.contains file = false) {path f : Path} (here : s.files.settle path = f)
    (same : f.same file = true) (fresh : s.importStack.contains f = false) :
    ((Analysis.load inferTop path true).run s).2.Settled file := by
  have gone := run_load_forced here fresh inferTop
  cases present : (s.fetch f).1 with
  | none =>
    rw [gone, present]
    exact Settled.recordFailure (s := (s.fetch f).2) { settled with } fresh fun _ => unloaded
  | some tree =>
    by_cases large : s.options.maxNodes < ((s.fetch f).2.cache.trees[tree]?.getD default).size
    · rw [gone, present]
      dsimp only
      rw [if_pos large]
      exact { settled with }
    · obtain ⟨ty, u, events, course, ran, -⟩ :=
        load_opened (inferTop_hears atTop) here fresh (.inl rfl) present (Nat.not_lt.mp large)
      rw [ran]
      refine settled.load (fun _ => unfailed) (course.settled fun e mem belied => ?_) course.steady
      -- The file is open all the way, so its tree is not asked for.
      cases e with
      | visit => exact belied
      | change m n =>
        obtain ⟨g, alike, -, closed, -⟩ := belied
        have around := course.around m (List.mem_flatMap.mpr ⟨_, mem, List.mem_cons_self⟩)
        obtain ⟨r, there, named⟩ := List.any_eq_true.mp (contains_openFile (s.found f) f)
        have open_ : m.importStack.contains f = true :=
          List.any_eq_true.mpr ⟨r, around.importStack.subset there, named⟩
        rw [PathSet.contains_congr (Path.same_trans same (Path.same_comm.trans alike))] at open_
        exact absurd open_ (Bool.eq_false_iff.mp closed)

theorem settled_reload (passed : Passed s) (here : (s.files.settle path).same file = true) :
    (s.reload path).2.Settled file := by
  obtain ⟨unloaded, unfailed, -⟩ := unrecorded_removeFile here
  have idle : (s.removeFile path).Idle := (passed.act (.removeFile path)).idle
  have fresh : (s.removeFile path).importStack.contains (s.files.settle path) = false := by
    rw [PathSet.contains, idle.importStack]
    rfl
  exact (settled_removeFile here).load_forced idle.depth unloaded unfailed rfl here fresh

/-! ## Histories -/

/-- Since the session was made, or the file was removed or reloaded, the file was found as it was on
record. -/
inductive Trusted (file : Path) : Session → Prop
  | new {options : Options} {files : FileTree} {s : Session}
      (made : Session.new options files = .ok s) : Trusted file s
  | removed {s : Session} (reached : Reachable s) {path : Path}
      (here : (s.files.settle path).same file = true) :
      Trusted file (s.removeFile path)
  | reloaded {s : Session} (reached : Reachable s) {path : Path}
      (here : (s.files.settle path).same file = true) :
      Trusted file (s.reload path).2
  | step {s t : Session} {events : List Event} (before : Trusted file s) (last : Operation s events t)
      (agrees : ∀ e ∈ events, ¬e.Belies file) : Trusted file t

theorem Trusted.reachable (trusted : Trusted file s) : Reachable s := by
  induction trusted with
  | new made => exact .new made
  | removed reached => exact reached.removeFile _
  | reloaded reached => exact reached.reload _
  | step _ last _ reached => exact last.reachable reached

theorem Trusted.settled (trusted : Trusted file s) : s.Settled file := by
  induction trusted with
  | new made =>
    rw [new_eq made]
    exact settled_of_not_failed rfl rfl
  | removed _ here => exact settled_removeFile here
  | reloaded reached here => exact settled_reload reached.passed here
  | step before last agrees settled => exact settled.operation before.reachable.passed.idle.depth last agrees

def TellsFailure (s : Session) (file : Path) : Prop :=
  ∃ d ∈ s.diagnostics.forFile file, d.category = .error ∧ d.message = "failed to parse"

instance (s : Session) (file : Path) : Decidable (s.TellsFailure file) :=
  inferInstanceAs (Decidable (∃ d ∈ s.diagnostics.forFile file, d.category = .error ∧
    d.message = "failed to parse"))

theorem tellsFailure_iff (reached : Reachable s) :
    s.TellsFailure file ↔ s.diagnostics.failures file ≠ [] := by
  constructor
  · rintro ⟨d, mem, -, said⟩
    exact List.ne_nil_of_mem (Diagnostics.mem_failures.mpr ⟨mem, said⟩)
  · intro some
    obtain ⟨d, mem⟩ := List.exists_mem_of_ne_nil _ some
    obtain ⟨there, said⟩ := Diagnostics.mem_failures.mp mem
    refine ⟨d, there, ?_, said⟩
    cases kind : d.category with
    | error => rfl
    | warning =>
      -- Warnings are in other words.
      obtain ⟨name, words⟩ := reached.passed.coherent.warnings file d there kind
      exact absurd (said.symm.trans words) (failed_ne_unused name)

def loading (text : String) : FileTree where
  root := .folder [("a.rb", .file text.toUTF8), ("b.rb", .file (callingWith (naming "load") "a").toUTF8)]

def rewritten (first second : String) : Session :=
  let s : Session := { options :=
    { cacheDir := ⟨"cache"⟩, diskCache := false }, files := loading first, cache :=
    { dumper := .content } }
  { (s.loadFile ⟨"/a.rb"⟩).2 with files := loading second, cache := (s.loadFile ⟨"/a.rb"⟩).2.cache.clear }

theorem reachable_rewritten (first second : String) : Reachable (rewritten first second) := by
  have start := reachable_empty { cacheDir := ⟨"cache"⟩, diskCache := false } (loading first) rfl rfl
  exact ((start.loadFile ⟨"/a.rb"⟩).edit (loading second)).clearCache

/-- **Outcomes of loads.** A file that is on record as failed is reported. If it has been found as
it was on record whenever it was read, since it was last removed or reloaded, then it is not on
record as loaded as well, and it is reported only if it is on record. -/
theorem load_outcomes (reached : Reachable s) (file : Path) :
    (s.failed.contains file = true → s.TellsFailure file) ∧
      (s.Trusted file → ¬(s.loaded.contains file = true ∧ s.failed.contains file = true) ∧
        (s.failed.contains file = true ↔ s.TellsFailure file)) := by
  constructor
  · intro failed
    obtain ⟨d, mem, same⟩ := List.any_eq_true.mp (reached.passed.orderly.reported failed)
    obtain ⟨-, -, words⟩ := of_decide_eq_true same
    exact (tellsFailure_iff reached).mpr (List.ne_nil_of_mem (Diagnostics.mem_failures.mpr ⟨mem, words.symm⟩))
  · intro trusted
    have settled := trusted.settled
    refine ⟨fun both => ?_, settled.told.trans (tellsFailure_iff reached).symm⟩
    exact absurd both.2 (Bool.eq_false_iff.mp (settled.apart both.1))

theorem load_outcomes_rewritten :
    ∃ s, Reachable s ∧ s.Trusted ⟨"/a.rb"⟩ ∧ s.failed.contains ⟨"/a.rb"⟩ =
      true ∧ s.loaded.contains ⟨"/a.rb"⟩ = false ∧
      s.TellsFailure ⟨"/a.rb"⟩ := by
  have reloaded : Trusted ⟨"/a.rb"⟩ ((rewritten "\x7b\"type\":\"void\"\x7d" "").reload ⟨"/a.rb"⟩).2 :=
    .reloaded (reachable_rewritten _ _) (by decide +kernel)
  have trusted := reloaded.step (.loadFile ⟨"/b.rb"⟩) fun e mem =>
    Event.not_belies (List.all_eq_true.mp (by decide +kernel : List.all _
      (Event.remembers ⟨"/a.rb"⟩) = true) e mem)
  obtain ⟨told, outcome⟩ := load_outcomes trusted.reachable ⟨"/a.rb"⟩
  have failed : (((rewritten "\x7b\"type\":\"void\"\x7d" "").reload ⟨"/a.rb"⟩).2.loadFile
      ⟨"/b.rb"⟩).2.failed.contains
      ⟨"/a.rb"⟩ = true := by
    decide +kernel
  refine ⟨_, trusted.reachable, trusted, failed, ?_, told failed⟩
  exact Bool.eq_false_iff.mpr fun loaded => (outcome trusted).1 ⟨loaded, failed⟩

/-- A loaded file that can no longer be parsed when it is loaded by force has both outcomes, and a
file that can be parsed after all is still reported as failed. -/
theorem outcome_overlap :
    (∃ s, Reachable s ∧ s.loaded.contains ⟨"/a.rb"⟩ = true ∧ s.failed.contains ⟨"/a.rb"⟩ = true) ∧
      ∃ s, Reachable s ∧ s.failed.contains ⟨"/a.rb"⟩ = false ∧ s.TellsFailure ⟨"/a.rb"⟩ := by
  have again (first second : String) := (reachable_rewritten first second).loadFile
  refine ⟨⟨_, again "\x7b\"type\":\"void\"\x7d" "" ⟨"/b.rb"⟩, ?_⟩,
    ⟨_, again "" "\x7b\"type\":\"void\"\x7d" ⟨"/a.rb"⟩, ?_⟩⟩
  · decide +kernel
  · decide +kernel

end Session

end RubyInfer
