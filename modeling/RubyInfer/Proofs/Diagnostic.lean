import RubyInfer.Diagnostic
import RubyInfer.Proofs.Path.Table

/-!
# Reports of a file after a change

Reports are added at the end of a file's list, unless one like them is there, and taken back
wherever they are.
-/

namespace RubyInfer

namespace Diagnostic

def content (d : Diagnostic) : UInt64 × UInt64 × String := (d.span.start, d.span.stop, d.message)

theorem sameReport_iff {a b : Diagnostic} : a.sameReport b = true ↔ a.content = b.content := by
  simp [sameReport, content]

end Diagnostic

namespace Diagnostics

variable {file : Path} {x : Diagnostic}

theorem forFile_push (ds : Diagnostics) (d : Diagnostic) (file : Path) :
    (ds.push d).forFile file =
      if d.file.same file && !(ds.forFile file).any d.sameReport then ds.forFile file ++ [d] else
        ds.forFile file := by
  unfold forFile push
  rw [PathMap.get?_update]
  by_cases here : d.file.same file = true
  · by_cases there : ((ds.byFile.get? file).getD []).any d.sameReport = true <;> simp [here, there]
  · simp [here]

theorem forFile_congr (ds : Diagnostics) {file other : Path} (same : file.same other = true) :
    ds.forFile file = ds.forFile other := by
  unfold forFile
  rw [PathMap.get?_congr same]

theorem prefix_forFile_push (ds : Diagnostics) (d : Diagnostic) (file : Path) :
    ds.forFile file <+: (ds.push d).forFile file := by
  rw [forFile_push]
  split
  · exact List.prefix_append ..
  · exact List.prefix_rfl

theorem mem_forFile_push_iff {ds : Diagnostics} {d x : Diagnostic} :
    x ∈ (ds.push d).forFile file ↔
      x ∈ ds.forFile file ∨ x = d ∧ d.file.same file = true ∧ ∀ y ∈ ds.forFile file,
      d.content ≠ y.content := by
  have new : (!(ds.forFile file).any d.sameReport) = true ↔ ∀ y ∈ ds.forFile file, d.content ≠ y.content := by
    rw [Bool.not_eq_true', List.any_eq_false]
    exact forall₂_congr fun y _ => not_congr Diagnostic.sameReport_iff
  rw [forFile_push]
  split <;> rename_i added <;> rw [Bool.and_eq_true, new] at added
  · rw [List.mem_append, List.mem_singleton, and_iff_left added]
  · simp [added]

theorem mem_forFile_push {ds : Diagnostics} {d x : Diagnostic}
    (mem : x ∈ (ds.push d).forFile file) : x ∈ ds.forFile file ∨ x = d :=
  (mem_forFile_push_iff.mp mem).imp_right And.left

theorem has_push (ds : Diagnostics) (d : Diagnostic) : (ds.push d).has d = true := by
  have itself : d.sameReport d = true := by simp [Diagnostic.sameReport]
  unfold has
  rw [forFile_push]
  split
  · simp [itself]
  · rename_i there
    simpa [Path.same_refl] using there

theorem mem_forFile_retract {ds : Diagnostics} {d x : Diagnostic} :
    x ∈ (ds.retract d).forFile file ↔ x ∈ ds.forFile file ∧
      ¬(d.file.same file = true ∧ d.sameReport x = true) := by
  unfold retract
  split
  · unfold forFile
    rw [PathMap.get?_update]
    by_cases here : d.file.same file = true
    · simp [here, List.mem_filter]
    · simp [here]
  · rename_i absent
    refine ⟨fun mem => ⟨mem, fun ⟨same, _⟩ => ?_⟩, fun kept => kept.1⟩
    rw [PathMap.contains_congr same, PathMap.contains_eq_isSome, Option.not_isSome_iff_eq_none] at absent
    simp [forFile, absent] at mem

/-! ## Several reports -/

theorem mem_forFile_retractAll {ds : Diagnostics} {gone : List Diagnostic} :
    x ∈ (gone.foldl retract ds).forFile file ↔
      x ∈ ds.forFile file ∧ ∀ d ∈ gone, ¬(d.file.same file = true ∧ d.sameReport x = true) := by
  induction gone generalizing ds with
  | nil => simp
  | cons d gone ih => rw [List.foldl_cons, ih, mem_forFile_retract, List.forall_mem_cons, and_assoc]

theorem prefix_forFile_pushAll (ds : Diagnostics) (new : List Diagnostic) (file : Path) :
    ds.forFile file <+: (new.foldl push ds).forFile file := by
  induction new generalizing ds with
  | nil => exact List.prefix_rfl
  | cons d new ih => exact (ds.prefix_forFile_push d file).trans (ih _)

/-- Of the reports that are added, those are there in the end that are the first with their content,
unless it was there before. -/
theorem mem_forFile_pushAll_iff {ds : Diagnostics} {new : List Diagnostic} :
    x ∈ (new.foldl push ds).forFile file ↔ x ∈ ds.forFile file ∨
      new.find? (fun d => d.file.same file && d.content = x.content) = some x ∧
      ∀ y ∈ ds.forFile file, x.content ≠ y.content := by
  induction new generalizing ds with
  | nil => simp
  | cons d new ih =>
    rw [List.foldl_cons, ih, List.find?_cons]
    simp only [mem_forFile_push_iff]
    grind

theorem mem_forFile_pushAll {ds : Diagnostics} {new : List Diagnostic}
    (mem : x ∈ (new.foldl push ds).forFile file) :
    x ∈ ds.forFile file ∨ x ∈ new ∧ x.file.same file = true := by
  obtain old | ⟨first, -⟩ := mem_forFile_pushAll_iff.mp mem
  · exact .inl old
  · have here := List.find?_some first
    rw [Bool.and_eq_true] at here
    exact .inr ⟨List.mem_of_find?_eq_some first, here.1⟩

theorem exists_mem_forFile_pushAll (ds : Diagnostics) {new : List Diagnostic} {d : Diagnostic}
    (added : d ∈ new)
    (here : d.file.same file = true) : ∃ x ∈ (new.foldl push ds).forFile file, d.sameReport x = true := by
  induction new generalizing ds with
  | nil => simp at added
  | cons first new ih =>
    obtain rfl | later := List.mem_cons.mp added
    · have there : ∃ x ∈ (ds.push d).forFile file, d.sameReport x = true := by
        rw [← forFile_congr _ here]
        exact List.any_eq_true.mp (ds.has_push d)
      obtain ⟨x, mem, same⟩ := there
      exact ⟨x, (prefix_forFile_pushAll _ new file).subset mem, same⟩
    · exact ih _ later

theorem forFile_removeFile (ds : Diagnostics) (file other : Path) :
    (ds.removeFile file).forFile other = if file.same other then [] else ds.forFile other := by
  unfold forFile removeFile
  rw [PathMap.get?_erase]
  split <;> rfl

/-! ## Tidy reports -/

theorem has_iff {ds : Diagnostics} {d : Diagnostic} :
    ds.has d = true ↔ d.content ∈ (ds.forFile d.file).map Diagnostic.content := by
  unfold has
  rw [List.any_eq_true, List.mem_map]
  exact exists_congr fun x => and_congr_right fun _ => Diagnostic.sameReport_iff.trans eq_comm

/-- No file has two lists, and no list says the same twice. -/
structure Tidy (ds : Diagnostics) : Prop where
  distinct : ds.byFile.Distinct
  once (file : Path) : ((ds.forFile file).map Diagnostic.content).Nodup

variable {ds : Diagnostics} {d : Diagnostic}

theorem tidy_empty : Tidy {} := ⟨.nil, fun _ => .nil⟩

theorem Tidy.push (tidy : ds.Tidy) (d : Diagnostic) : (ds.push d).Tidy := by
  refine ⟨tidy.distinct.update .., fun file => ?_⟩
  rw [forFile_push]
  split
  · rename_i new
    rw [List.map_append, List.nodup_append]
    refine ⟨tidy.once file, by simp, fun a mem b last same => ?_⟩
    obtain ⟨x, there, rfl⟩ := List.mem_map.mp mem
    rw [List.map_singleton, List.mem_singleton] at last
    have like : d.sameReport x = true := Diagnostic.sameReport_iff.mpr (last.symm.trans same.symm)
    have none : (ds.forFile file).any d.sameReport = false := by simpa using (Bool.and_eq_true_iff.mp new).2
    exact Bool.eq_false_iff.mp none (List.any_eq_true.mpr ⟨x, there, like⟩)
  · exact tidy.once file

theorem sublist_forFile_retract (ds : Diagnostics) (d : Diagnostic) (file : Path) :
    ((ds.retract d).forFile file).Sublist (ds.forFile file) := by
  unfold retract
  split
  · unfold forFile
    rw [PathMap.get?_update]
    split
    · exact List.filter_sublist
    · exact List.Sublist.refl _
  · exact List.Sublist.refl _

theorem Tidy.retract (tidy : ds.Tidy) (d : Diagnostic) : (ds.retract d).Tidy := by
  refine ⟨?_, fun file => ((sublist_forFile_retract ds d file).map _).nodup (tidy.once file)⟩
  unfold Diagnostics.retract
  split
  · exact tidy.distinct.update ..
  · exact tidy.distinct

theorem Tidy.removeFile (tidy : ds.Tidy) (file : Path) : (ds.removeFile file).Tidy := by
  refine ⟨tidy.distinct.erase file, fun other => ?_⟩
  rw [forFile_removeFile]
  split
  · exact .nil
  · exact tidy.once other

theorem Tidy.push_of_has (tidy : ds.Tidy) (there : ds.has d = true) : ds.push d = ds := by
  unfold has forFile at there
  cases found : ds.byFile.get? d.file with
  | none => simp [found] at there
  | some list =>
    have held : list.any d.sameReport = true := by simpa [found] using there
    have present : ds.byFile.contains d.file = true := by
      rw [PathMap.contains_eq_isSome, found]
      rfl
    unfold Diagnostics.push PathMap.update
    rw [if_pos present]
    have same : ∀ e ∈ ds.byFile.entries,
        (if d.file.same e.1 then (e.1, if e.2.any d.sameReport then e.2 else e.2 ++ [d]) else e) = e := by
      intro e mem
      split
      · rename_i here
        have only : list = e.2 := Option.some.inj (found.symm.trans (tidy.distinct.get?_of_mem mem here))
        rw [← only, if_pos held, only]
      · rfl
    rw [List.map_congr_left same, List.map_id']

/-! ## Counts -/

def files (ds : Diagnostics) : List Path := ds.byFile.entries.map Prod.fst

theorem files_push (ds : Diagnostics) (d : Diagnostic) :
    (ds.push d).files = if ds.byFile.contains d.file then ds.files else ds.files ++ [d.file] :=
      PathMap.map_fst_update ..

theorem files_retract (ds : Diagnostics) (d : Diagnostic) : (ds.retract d).files = ds.files := by
  unfold retract
  split
  · rename_i present
    exact (PathMap.map_fst_update ..).trans (if_pos present)
  · rfl

theorem Tidy.lists_eq (tidy : ds.Tidy) : ds.byFile.values = ds.files.map ds.forFile := by
  unfold PathMap.values files
  rw [List.map_map]
  refine List.map_congr_left fun e mem => ?_
  show e.2 = (ds.byFile.get? e.1).getD []
  rw [tidy.distinct.get?_of_mem mem (Path.same_refl _)]
  rfl

theorem Tidy.counts_eq {ds' : Diagnostics} (tidy : ds.Tidy) (tidy' : ds'.Tidy) (files : ds'.files = ds.files)
    (lengths : ∀ file, (ds'.forFile file).length = (ds.forFile file).length) :
    ds'.total = ds.total ∧ ds'.filesWithProblems = ds.filesWithProblems := by
  unfold total all filesWithProblems
  rw [tidy.lists_eq, tidy'.lists_eq, files]
  refine ⟨?_, ?_⟩
  · simp only [List.length_flatten, List.map_map, Function.comp_def, lengths]
  · simp only [List.filter_map, List.length_map, Function.comp_def]
    congr 2
    funext file
    have same := lengths file
    cases left : ds'.forFile file <;> cases right : ds.forFile file <;> simp_all

/-! ## Scans -/

def revise (gone new : List Diagnostic) (ds : Diagnostics) : Diagnostics :=
  new.foldl push (gone.foldl retract ds)

theorem Tidy.foldl {step : Diagnostics → Diagnostic → Diagnostics}
    (keeps : ∀ ds d, Tidy ds → (step ds d).Tidy) (tidy : ds.Tidy)
    (reports : List Diagnostic) : (reports.foldl step ds).Tidy := by
  induction reports generalizing ds with
  | nil => exact tidy
  | cons d reports ih => exact ih (keeps ds d tidy)

theorem Tidy.revise (tidy : ds.Tidy) (gone new : List Diagnostic) : (ds.revise gone new).Tidy :=
  (tidy.foldl (fun _ d tidy => tidy.retract d) gone).foldl (fun _ d tidy => tidy.push d) new

theorem mem_content_revise {gone new : List Diagnostic} {k : UInt64 × UInt64 × String} :
    k ∈ ((ds.revise gone new).forFile file).map Diagnostic.content ↔
      (k ∈ (ds.forFile file).map Diagnostic.content ∧ ∀ d ∈ gone, d.file.same file = true → d.content ≠ k) ∨
        ∃ d ∈ new, d.file.same file = true ∧ d.content = k := by
  constructor
  · intro mem
    obtain ⟨x, there, rfl⟩ := List.mem_map.mp mem
    obtain old | ⟨added, here⟩ := mem_forFile_pushAll there
    · obtain ⟨before, untouched⟩ := mem_forFile_retractAll.mp old
      refine .inl ⟨List.mem_map_of_mem before, fun d taken here same => ?_⟩
      exact untouched d taken ⟨here, Diagnostic.sameReport_iff.mpr same⟩
    · exact .inr ⟨x, added, here, rfl⟩
  · rintro (⟨mem, untouched⟩ | ⟨d, added, here, rfl⟩)
    · obtain ⟨x, there, rfl⟩ := List.mem_map.mp mem
      refine List.mem_map_of_mem
        ((prefix_forFile_pushAll _ new file).subset
        (mem_forFile_retractAll.mpr ⟨there, fun d taken like => ?_⟩))
      exact untouched d taken like.1 (Diagnostic.sameReport_iff.mp like.2)
    · obtain ⟨x, there, same⟩ := exists_mem_forFile_pushAll (gone.foldl retract ds) added here
      rw [Diagnostic.sameReport_iff.mp same]
      exact List.mem_map_of_mem there

theorem contains_push (ds : Diagnostics) (d : Diagnostic) (file : Path) :
    (ds.push d).byFile.contains file = (d.file.same file || ds.byFile.contains file) := by
  unfold push
  rw [PathMap.contains_eq_isSome, PathMap.contains_eq_isSome, PathMap.get?_update]
  split
  · rename_i here
    simp [here]
  · rename_i elsewhere
    simp [elsewhere]

theorem contains_retract (ds : Diagnostics) (d : Diagnostic) (file : Path) :
    (ds.retract d).byFile.contains file = ds.byFile.contains file := by
  unfold retract
  split
  · rename_i present
    rw [PathMap.contains_eq_isSome, PathMap.contains_eq_isSome, PathMap.get?_update]
    split
    · rename_i here
      rw [PathMap.contains_congr here, PathMap.contains_eq_isSome] at present
      rw [present]
      rfl
    · rfl
  · rfl

theorem contains_pushAll {new : List Diagnostic}
    (there : ds.byFile.contains file = true ∨ ∃ d ∈ new, d.file.same file = true) :
    (new.foldl push ds).byFile.contains file = true := by
  induction new generalizing ds with
  | nil => simpa using there
  | cons d new ih =>
    refine ih ?_
    rw [contains_push]
    obtain before | ⟨x, mem, here⟩ := there
    · simp [before]
    · obtain rfl | later := List.mem_cons.mp mem
      · simp [here]
      · exact .inr ⟨x, later, here⟩

theorem retractAll_lists (gone : List Diagnostic) (ds : Diagnostics) :
    (gone.foldl retract ds).files = ds.files ∧
      ∀ file, (gone.foldl retract ds).byFile.contains file = ds.byFile.contains file := by
  induction gone generalizing ds with
  | nil => exact ⟨rfl, fun _ => rfl⟩
  | cons d gone ih =>
    obtain ⟨files, contains⟩ := ih (ds.retract d)
    exact ⟨files.trans (files_retract ds d), fun file => (contains file).trans (contains_retract ds d file)⟩

theorem files_pushAll {new : List Diagnostic} (present : ∀ d ∈ new, ds.byFile.contains d.file = true) :
    (new.foldl push ds).files = ds.files := by
  induction new generalizing ds with
  | nil => rfl
  | cons d new ih =>
    have first : (ds.push d).files = ds.files :=
      (files_push ds d).trans (if_pos (present d List.mem_cons_self))
    refine (ih fun x mem => ?_).trans first
    rw [contains_push, present x (List.mem_cons_of_mem d mem), Bool.or_true]

/-! ## The same scan again -/

variable {gone new : List Diagnostic}

theorem mem_forFile_revise_revise : x ∈ ((ds.revise gone new).revise gone new).forFile file ↔
    x ∈ (ds.revise gone new).forFile file := by
  have alike {x y : Diagnostic} (same : x.content = y.content)
      (kept : ∀ d ∈ gone, ¬(d.file.same file = true ∧ d.sameReport x = true)) :
      ∀ d ∈ gone, ¬(d.file.same file = true ∧ d.sameReport y = true) := by
    simpa only [Diagnostic.sameReport_iff, same] using kept
  have once {x : Diagnostic} : x ∈ (ds.revise gone new).forFile file ↔
      x ∈ (gone.foldl retract ds).forFile file ∨ _ :=
    mem_forFile_pushAll_iff
  rw [revise, mem_forFile_pushAll_iff, mem_forFile_retractAll]
  constructor
  · rintro (⟨mem, -⟩ | ⟨first, fresh⟩)
    · exact mem
    · -- Nothing like `x` was left the first time either.
      refine once.mpr (.inr ⟨first, fun y mem same => fresh y ?_ same⟩)
      exact mem_forFile_retractAll.mpr ⟨once.mpr (.inl mem), (mem_forFile_retractAll.mp mem).2⟩
  · intro mem
    by_cases kept : ∀ d ∈ gone, ¬(d.file.same file = true ∧ d.sameReport x = true)
    · exact .inl ⟨mem, kept⟩
    · -- `x` is taken back, and is the first to come back with its content.
      obtain old | ⟨first, -⟩ := once.mp mem
      · exact absurd (mem_forFile_retractAll.mp old).2 kept
      · refine .inr ⟨first, fun y there same => kept ?_⟩
        exact alike same.symm (mem_forFile_retractAll.mp there).2

theorem files_revise_revise (ds : Diagnostics) (gone new : List Diagnostic) :
    ((ds.revise gone new).revise gone new).files = (ds.revise gone new).files := by
  obtain ⟨files, contains⟩ := retractAll_lists gone (ds.revise gone new)
  refine (files_pushAll fun d mem => ?_).trans files
  rw [contains]
  exact contains_pushAll (.inr ⟨d, mem, Path.same_refl _⟩)

theorem Tidy.perm_revise_revise (tidy : ds.Tidy) (gone new : List Diagnostic) (file : Path) :
    (((ds.revise gone new).revise gone new).forFile file).Perm ((ds.revise gone new).forFile file) := by
  have distinct {ds : Diagnostics} (tidy : ds.Tidy) : (ds.forFile file).Nodup :=
    List.Pairwise.of_map Diagnostic.content (fun _ _ other same => other (same ▸ rfl)) (tidy.once file)
  have once := tidy.revise gone new
  rw [List.perm_ext_iff_of_nodup (distinct (once.revise gone new)) (distinct once)]
  exact fun _ => mem_forFile_revise_revise

theorem Tidy.counts_revise_revise (tidy : ds.Tidy) (gone new : List Diagnostic) :
    ((ds.revise gone new).revise gone new).total = (ds.revise gone new).total ∧
      ((ds.revise gone new).revise gone new).filesWithProblems = (ds.revise gone new).filesWithProblems := by
  have once := tidy.revise gone new
  exact once.counts_eq (once.revise gone new) (ds.files_revise_revise gone new)
    fun file => (tidy.perm_revise_revise gone new file).length_eq

/-! ## Failures -/

def failures (ds : Diagnostics) (file : Path) : List Diagnostic :=
  (ds.forFile file).filter fun d => d.message = "failed to parse"

theorem mem_failures : x ∈ ds.failures file ↔ x ∈ ds.forFile file ∧ x.message = "failed to parse" := by
  simp [failures]

theorem failures_push (other : d.message ≠ "failed to parse" ∨ d.file.same file = false) (ds : Diagnostics) :
    (ds.push d).failures file = ds.failures file := by
  unfold failures
  rw [forFile_push]
  split
  · rename_i added
    rcases other with words | elsewhere
    · simp [List.filter_append, words]
    · simp [elsewhere] at added
  · rfl

theorem failures_push_self (here : d.file.same file = true) (said : d.message = "failed to parse")
    (ds : Diagnostics) :
    (ds.push d).failures file ≠ [] := by
  obtain ⟨x, mem, same⟩ := List.any_eq_true.mp (ds.has_push d)
  obtain ⟨-, -, words⟩ := of_decide_eq_true same
  rw [forFile_congr _ here] at mem
  exact List.ne_nil_of_mem (mem_failures.mpr ⟨mem, words.symm.trans said⟩)

theorem mem_failures_revise (other : ∀ d ∈ gone ++ new, d.message ≠ "failed to parse") :
    x ∈ (ds.revise gone new).failures file ↔ x ∈ ds.failures file := by
  rw [mem_failures, mem_failures]
  refine and_congr_left fun said => ⟨fun mem => ?_, fun mem => ?_⟩
  · rcases mem_forFile_pushAll mem with old | ⟨added, -⟩
    · exact (mem_forFile_retractAll.mp old).1
    · exact absurd said (other x (List.mem_append_right gone added))
  · refine (prefix_forFile_pushAll _ new file).subset
      (mem_forFile_retractAll.mpr ⟨mem, fun d taken like => ?_⟩)
    obtain ⟨-, -, words⟩ := of_decide_eq_true like.2
    exact other d (List.mem_append_left new taken) (words.trans said)

theorem failures_removeFile (ds : Diagnostics) (file other : Path) :
    (ds.removeFile file).failures other = if file.same other then [] else ds.failures other := by
  unfold failures
  rw [forFile_removeFile]
  split <;> rfl

end Diagnostics

end RubyInfer
