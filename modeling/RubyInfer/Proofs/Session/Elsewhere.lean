import RubyInfer.Proofs.Session.Confined

/-!
# After a file is removed

Operations on other files leave a removed file removed, as long as no type speaks of one of its
functions. A type that does is a way back into the file: it outlives the removal in a binding of
another file, and an application enters the body that is no longer there.
-/

namespace RubyInfer

theorem PathSet.contains_eq_false_iff {s : PathSet} {p : Path} :
    s.contains p = false ↔ ∀ q ∈ s.paths, q.same p = false := by
  rw [PathSet.contains, List.any_eq_false]
  refine forall₂_congr fun q _ => ?_
  rw [Path.same_comm, Bool.not_eq_true]

namespace Session

open Analysis

variable {s t u : Session} {events : List Event} {file : Path}

/-! ## Operations and what happens in them -/

inductive Operation (s : Session) : List Event → Session → Prop
  | edit (files : FileTree) : Operation s [] { s with files }
  | setStatic (on : Bool) : Operation s [] { s with staticContext := on }
  | clearCache : Operation s [] { s with cache := s.cache.clear }
  | loadFile (path : Path) : Operation s (tellLoad path false s).2.2 (s.loadFile path).2
  | removeFile (path : Path) : Operation s [] (s.removeFile path)
  | reload (path : Path) : Operation s (tellLoad path true (s.removeFile path)).2.2 (s.reload path).2
  | analyze {root : Path} {t : Session} {events : List Event}
      (done : s.tellAnalyze root = .ok (t, events)) : Operation s events t
  | finish {rounds : Nat} {summary : Summary} {t : Session} (ended : finish? rounds s = some (summary, t)) :
      Operation s (tellDrain rounds { s with phase := .fixpoint }).2 t

theorem depth_opening (s : Session) (top : Path) (files : List Path) :
    (s.opening top files).depth = s.depth := by
  obtain ⟨cache, files', projectDir, same⟩ := s.opening_eq top files
  rw [same]

theorem tellAnalyze_told (atTop : s.depth = 0) {root : Path} (done : s.tellAnalyze root = .ok (t, events)) :
    ∃ top, s.files.canonical root = .ok top ∧ t = (s.opening top (s.sources top)).loadAll (s.sources top) ∧
      events = (tellAll (s.sources top) (s.opening top (s.sources top))).2.2 := by
  cases there : s.files.canonical root with
  | error e =>
    unfold tellAnalyze at done
    rw [there] at done
    cases done
  | ok top =>
    rw [tellAnalyze_eq there] at done
    obtain ⟨v, told, same, ran, -⟩ := tellAll_course (s.sources top) ((s.depth_opening top _).trans atTop)
    rw [same] at done
    cases done
    exact ⟨top, rfl, ran.symm, (congrArg (fun r => r.2.2) same).symm⟩

theorem Operation.reachable (step : Operation s events t) (reached : Reachable s) : Reachable t := by
  cases step with
  | edit files => exact reached.edit files
  | setStatic on => exact reached.setStatic on
  | clearCache => exact reached.clearCache
  | loadFile path => exact reached.loadFile path
  | removeFile path => exact reached.removeFile path
  | reload path => exact reached.reload path
  | analyze done =>
    obtain ⟨top, there, rfl, -⟩ := tellAnalyze_told reached.passed.idle.depth done
    exact reached.analyze (analyze_eq there)
  | finish ended => exact reached.finish ended

theorem Confined.opening {R : Realm} (confined : Confined R s) (top : Path) (files : List Path) :
    Confined R (s.opening top files) := by
  obtain ⟨cache, files', projectDir, same⟩ := s.opening_eq top files
  rw [same]
  exact { confined with }

theorem passed_opening (passed : Passed s) (top : Path) (files : List Path) : Passed (s.opening top files) :=
  (passed.act (.advance (.begin ..))).advances (advances_warmed ..)

theorem Confined.operation {R : Realm} (confined : Confined R s) (passed : Passed s)
    (step : Operation s events t) (reads : ∀ m ∈ through events, R.Reads m) : Confined R t := by
  cases step with
  | edit | setStatic | clearCache => exact { confined with }
  | loadFile path => exact confined.load passed path false reads
  | removeFile path => exact confined.removeFile path
  | reload path => exact (confined.removeFile path).load (passed.act (.removeFile path)) path true reads
  | analyze done =>
    obtain ⟨top, -, rfl, rfl⟩ := tellAnalyze_told passed.idle.depth done
    have ready := passed_opening passed top (s.sources top)
    have begun := (confined.opening top (s.sources top)).twin ready
    obtain ⟨st, -, after⟩ := tellAll_twin begun ready.idle.depth (fun _ _ => trivial) reads
    exact after.confined
  | finish ended => exact confined.finish passed reads ended

/-- What can become of a session as long as the tree of a file is not asked for. -/
inductive Elsewhere (file : Path) (s : Session) : Session → Prop
  | refl : Elsewhere file s s
  | step {t u : Session} {events : List Event} (before : Elsewhere file s t) (last : Operation t events u)
      (unread : ∀ m ∈ u :: through events, m.cache.contains file = false) : Elsewhere file s u

theorem Elsewhere.reachable (later : Elsewhere file s t) (reached : Reachable s) : Reachable t := by
  induction later with
  | refl => exact reached
  | step _ last _ ih => exact last.reachable ih

/-! ## The other files -/

def without (s : Session) (file : Path) : Realm where
  source f := f.same file = false
  same {f g} same other := by rwa [Path.same_comm, Path.same_congr same, Path.same_comm]
  function id := ∀ f ∈ s.functions[id]?, f.node.file.same file = false
  before := s.functions.size
  newer old := by simp [Array.getElem?_eq_none old]

def Severed (s : Session) (file : Path) : Prop := ∀ {id : BindingId} {b : Binding},
    s.registry.get? id = some b → b.ty.Within (s.without file).vocabulary

theorem reads_without (unread : t.cache.contains file = false) : (s.without file).Reads t := by
  intro f there
  show f.same file = false
  cases same : f.same file with
  | false => rfl
  | true =>
    rw [Cache.contains, PathMap.contains_congr same] at there
    exact absurd there (Bool.eq_false_iff.mp unread)

theorem Elsewhere.confined {R : Realm} (later : Elsewhere file s t) (reached : Reachable s)
    (others : ∀ m : Session, m.cache.contains file = false → R.Reads m)
    (confined : Confined R s) : Confined R t := by
  induction later with
  | refl => exact confined
  | step before last unread ih =>
    exact ih.operation (before.reachable reached).passed last fun m mem =>
      others m (unread m (List.mem_cons_of_mem _ mem))

theorem Elsewhere.unread (later : Elsewhere file s t) (before : s.cache.contains file = false) :
    t.cache.contains file = false := by
  cases later with
  | refl => exact before
  | step _ _ unread => exact unread _ List.mem_cons_self

theorem FreeOf.confined (free : s.FreeOf file) (listed : s.Listed) (severed : s.Severed file)
    (index : ∀ e ∈ s.registry.references.entries, e.1.same file = false)
    (reported : ∀ e ∈ s.diagnostics.byFile.entries, e.1.same file = false) :
    Confined (s.without file) s where
  bindings live := ⟨free.bindings live, severed live, free.refs live⟩
  index e mem := ⟨index e mem, fun x inside =>
    free.keys x.1 (List.mem_flatMap.mpr ⟨e, mem, List.mem_map_of_mem inside⟩)⟩
  before := Nat.le_refl _
  functions spoken here := spoken _ here
  functionAt e mem := by
    have other := free.functionAt e mem
    refine ⟨other, fun f here => ?_⟩
    have node := (listed.entry mem).2
    rw [function, here] at node
    rw [← node] at other
    exact other
  uncalled id mem f here := by
    have other := free.uncalled id mem
    rw [function, here] at other
    exact other
  loaded := PathSet.contains_eq_false_iff.mp free.loaded
  failed := PathSet.contains_eq_false_iff.mp free.failed
  reported := reported
  resolved := free.resolved
  unresolved := free.unresolved

theorem Confined.freeOf (confined : Confined (s.without file) t) (passed : Passed t)
    (unread : t.cache.contains file = false) :
    t.FreeOf file := by
  have linked := passed.coherent.linked
  have live {id : BindingId} (there : (t.registry.get? id).isSome = true) :
      ∃ b, t.registry.get? id = some b ∧ b.file.same file = false := by
    obtain ⟨b, here⟩ := Option.isSome_iff_exists.mp there
    exact ⟨b, here, (confined.bindings here).1⟩
  have spoken {id : FunctionId} (known : (s.without file).function id) (inRange : id < t.functions.size) :
      (t.function id).node.file.same file = false := by
    have here := Array.getElem?_eq_getElem inRange
    rw [function, here]
    exact confined.functions known here
  refine ⟨fun here => (confined.bindings here).1, fun held => live (linked.entered held),
    fun here => live (linked.mentioned here), ?_,
    ?_, fun here => (confined.bindings here).2.2, ?_, PathSet.contains_eq_false_iff.mpr confined.loaded,
    PathSet.contains_eq_false_iff.mpr confined.failed, confined.resolved, confined.unresolved, unread, ?_, ?_⟩
  · rw [Registry.referencesIn?, ← Option.not_isSome_iff_eq_none]
    intro known
    obtain ⟨index, here⟩ := Option.isSome_iff_exists.mp known
    obtain ⟨e, mem, same⟩ := PathMap.exists_mem_of_get? here
    have other : e.1.same file = false := (confined.index e mem).1
    rw [Path.same_comm, same] at other
    cases other
  · intro node mem
    obtain ⟨e, inside, listed⟩ := List.mem_flatMap.mp mem
    obtain ⟨x, here, rfl⟩ := List.mem_map.mp listed
    exact (confined.index e inside).2 x here
  · intro d mem
    obtain ⟨list, inside, here⟩ := List.mem_flatten.mp mem
    obtain ⟨e, entry, rfl⟩ := List.mem_map.mp inside
    exact (s.without file).same (passed.own e entry d here) (confined.reported e entry)
  · intro id mem
    exact spoken (confined.uncalled id mem) (passed.catalogued.waiting mem).1
  · intro e mem
    exact (confined.functionAt e mem).1

theorem confined_removeFile (passed : Passed s) (path : Path)
    (severed : (s.removeFile path).Severed (s.files.settle path)) :
    Confined ((s.removeFile path).without (s.files.settle path)) (s.removeFile path) := by
  have free := passed.coherent.freeOf passed.own path
  have listed := (passed.act (.removeFile path)).catalogued.toListed
  refine free.confined listed severed (fun e mem => ?_) (fun e mem => ?_)
  · obtain ⟨kept, there, rfl⟩ := List.mem_map.mp mem
    have other := (List.mem_filter.mp there).2
    rw [Path.same_comm]
    simpa using other
  · have other := (List.mem_filter.mp mem).2
    rw [Path.same_comm]
    simpa using other

/-- **What is removed stays removed.** Let a file be removed, and let no type that is left speak of
one of its functions. Whatever operations follow, nothing in the session belongs to the file, as
long as its tree is not asked for again. -/
theorem freeOf_elsewhere (reached : Reachable s) (path : Path)
    (severed : (s.removeFile path).Severed (s.files.settle path))
    (later : Elsewhere (s.files.settle path) (s.removeFile path) t) : t.FreeOf (s.files.settle path) := by
  have removed := reached.removeFile path
  have confined := later.confined removed (fun _ => reads_without)
    (confined_removeFile reached.passed path severed)
  have unread := later.unread (reached.passed.coherent.freeOf reached.passed.own path).memory
  exact confined.freeOf (later.reachable removed).passed unread

def lambda : String := "\x7b\"type\":\"lambda\",\"params\":\x7b\x7d,\"body\":" ++
    assigning "y" "\x7b\"type\":\"void\"\x7d" ++ "\x7d"

def beforeHanding (value : String) : Session where
  options := { cacheDir := ⟨"cache"⟩, diskCache := false }
  files := { root := .folder [("p.rb", .file (assigning "f" lambda).toUTF8),
      ("q.rb", .file (assigning "z" value).toUTF8),
    ("r.rb", .file ("\x7b\"type\":\"call\",\"func\":" ++ naming "z" ++ ",\"args\":\x7b\x7d\x7d").toUTF8)] }
  cache := { dumper := .content }

def afterHanding (value : String) : Session :=
  (((beforeHanding value).loadFile ⟨"/p.rb"⟩).2.loadFile ⟨"/q.rb"⟩).2

theorem reachable_afterHanding (value : String) : Reachable (afterHanding value) := by
  have fresh : Reachable (beforeHanding value) := reachable_empty _ _ rfl rfl
  exact (fresh.loadFile _).loadFile _

def calledHanding (value : String) : Session :=
  (((afterHanding value).removeFile ⟨"/p.rb"⟩).loadFile ⟨"/r.rb"⟩).2

/-- With a lambda of its own, `z` has nothing to do with the file that goes. -/
theorem freeOf_elsewhere_own :
    Reachable (afterHanding lambda) ∧ ((afterHanding lambda).removeFile ⟨"/p.rb"⟩).Severed ⟨"/p.rb"⟩ ∧
      Elsewhere ⟨"/p.rb"⟩ ((afterHanding lambda).removeFile ⟨"/p.rb"⟩) (calledHanding lambda) ∧
      (calledHanding lambda).registry.all.map (fun e => (e.2.name, e.2.file)) =
        [("z", ⟨"/q.rb"⟩), ("y", ⟨"/q.rb"⟩)] ∧
      (calledHanding lambda).FreeOf ⟨"/p.rb"⟩ := by
  have reached := reachable_afterHanding lambda
  have settled : (afterHanding lambda).files.settle ⟨"/p.rb"⟩ = ⟨"/p.rb"⟩ := by decide +kernel
  have severed : ((afterHanding lambda).removeFile ⟨"/p.rb"⟩).Severed ⟨"/p.rb"⟩ := by
    intro id b live
    have typed : ∀ e ∈ ((afterHanding lambda).removeFile ⟨"/p.rb"⟩).registry.all,
        e.2.ty = .function 1 := by decide +kernel
    have elsewhere : ∀ f ∈ ((afterHanding lambda).removeFile ⟨"/p.rb"⟩).functions[1]?,
        f.node.file.same ⟨"/p.rb"⟩ = false := by
      decide +kernel
    rw [typed _ (Registry.mem_all.mpr live)]
    exact elsewhere
  have later : Elsewhere ⟨"/p.rb"⟩ ((afterHanding lambda).removeFile ⟨"/p.rb"⟩) (calledHanding lambda) :=
    .step .refl (.loadFile ⟨"/r.rb"⟩) (by decide +kernel)
  refine ⟨reached, severed, later, by decide +kernel, ?_⟩
  have free := freeOf_elsewhere reached ⟨"/p.rb"⟩ (t := calledHanding lambda)
  rw [settled] at free
  exact free severed later

/-- If `z` stands for the lambda that went, then calling it binds `y` in the file again. -/
theorem not_freeOf_handed :
    Reachable (afterHanding (naming "f")) ∧
      Elsewhere ⟨"/p.rb"⟩ ((afterHanding (naming "f")).removeFile ⟨"/p.rb"⟩)
        (calledHanding (naming "f")) ∧
      ¬(calledHanding (naming "f")).FreeOf ⟨"/p.rb"⟩ := by
  refine ⟨reachable_afterHanding (naming "f"),
    .step .refl (.loadFile ⟨"/r.rb"⟩) (by decide +kernel), fun free => ?_⟩
  have bound : ((calledHanding (naming "f")).registry.get? 2).any
      (fun b => b.name = "y" ∧ b.file.same ⟨"/p.rb"⟩) = true := by
    decide +kernel
  obtain ⟨b, live, facts⟩ := (Option.any_eq_true ..).mp bound
  have other := free.bindings live
  rw [(of_decide_eq_true facts).2] at other
  cases other

end Session

end RubyInfer
