import RubyInfer.Proofs.Session.Circular
import RubyInfer.Proofs.Session.Idempotence
import RubyInfer.Proofs.Session.Mirror

/-!
# Operations in two sessions

Loading files and ending an analysis, in two sessions alike. The first session is watched, so each
operation has a telling version, and what is asked of a pairing is asked of the sessions that it
tells of.
-/

namespace RubyInfer

open Relator

/-! ## All bindings -/

namespace Registry.Twin

variable {F : Frame} {L : Links} {r r' : Registry}

theorem all (twin : Twin F L r r') :
    List.Forall₂ (fun e e' => e'.1 = F.binding e.1 ∧ Binding.Twin F L e.2 e'.2) r.all r'.all := by
  have split : List.range r'.slots.size = List.range F.offsets.bindings ++
      (List.range r.slots.size).map F.binding := by
    rw [twin.size, Frame.binding, Nat.add_comm, List.range_add]
    congr 1
    apply List.map_congr_left
    intro i _
    exact Nat.add_comm ..
  have before : (List.range F.offsets.bindings).filterMap (fun id => (r'.get? id).map fun b =>
    (id, b)) = [] := by
    rw [List.filterMap_eq_nil_iff]
    intro i mem
    rw [twin.gone i (List.mem_range.mp mem)]
    rfl
  unfold Registry.all
  rw [split, List.filterMap_append, before, List.nil_append, List.filterMap_map]
  have each (ids : List Nat) : List.Forall₂ (fun i j => i = j) ids ids := List.forall₂_same.mpr fun _ _ => rfl
  refine List.rel_filterMap (fun i j same => ?_) (each _)
  subst same
  have slot := twin.get? i
  simp only [Function.comp_apply]
  generalize r.get? i = x, r'.get? (F.binding i) = y at slot
  cases slot with
  | none => exact .none
  | some related => exact .some ⟨rfl, related⟩

end Registry.Twin

namespace Session

variable {P : Pairing} {st : Stage} {s s' t : Session}

/-! ## Unused names -/

theorem Twin.reportable (twin : Twin P st s s') :
    List.Forall₂ (Binding.Twin P.toFrame st.links) s.reportable s'.reportable := by
  unfold Session.reportable
  refine List.rel_filter (fun b b' related => ?_) (List.rel_map (fun _ _ entry => entry.2) twin.registry.all)
  simp [related.kind]

theorem Twin.warnings (twin : Twin P st s s') {bs bs' : List Binding}
    (related : List.Forall₂ (Binding.Twin P.toFrame st.links) bs bs') :
    bs'.map s'.unusedWarning = bs.map s.unusedWarning := by
  induction related with
  | nil => rfl
  | @cons b b' bs bs' first _ ih =>
    have same : s'.unusedWarning b' = s.unusedWarning b := by
      unfold unusedWarning
      rw [twin.span_eq first.node, first.name, Binding.file, Binding.file, first.node.file]
    rw [List.map_cons, List.map_cons, same, ih]

theorem reported_retract {ds : Diagnostics} {source : Path → Prop}
    (from_ : ∀ e ∈ ds.byFile.entries, source e.1) (d : Diagnostic) :
    ∀ e ∈ (ds.retract d).byFile.entries, source e.1 := by
  unfold Diagnostics.retract
  split
  · rename_i there
    intro e mem
    rcases PathMap.mem_entries_update mem with old | ⟨a, old, -, -⟩ | rfl
    · exact from_ e old
    · exact from_ (e.1, a) old
    · rw [PathMap.update, if_pos there] at mem
      obtain ⟨old, mem, same⟩ := List.mem_map.mp mem
      have kept : (if d.file.same old.1 then (old.1, old.2.filter fun x => !d.sameReport x) else
          old).1 = old.1 := by split <;> rfl
      rw [← same, kept]
      exact from_ old mem
  · exact from_

theorem Twin.reportUnused (twin : Twin P st s s') : Twin P st s.reportUnused s'.reportUnused := by
  have used : s'.usedWarnings = s.usedWarnings :=
    twin.warnings (List.rel_filter (fun b b' related => by simp [related.isUnused_eq]) twin.reportable)
  have unused : s'.unusedWarnings = s.unusedWarnings :=
    twin.warnings (List.rel_filter (fun b b' related => by simp [related.isUnused_eq]) twin.reportable)
  have within : ∀ b ∈ s.reportable, P.source b.file :=
    ((List.forall₂_and_left ..).mp (twin.reportable.imp fun _ _ related => ⟨related.node.source, related⟩)).1
  have sources : ∀ d ∈ s.unusedWarnings, P.source d.file := by
    intro d mem
    obtain ⟨b, listed, rfl⟩ := List.mem_map.mp mem
    exact within b (List.mem_filter.mp listed).1
  refine { twin with diagnostics := ?_, reported := ?_ }
  · rw [diagnostics_reportUnused, diagnostics_reportUnused, used, unused, twin.diagnostics]
  · have retracted (ds : List Diagnostic) {all : Diagnostics}
        (from_ : ∀ e ∈ all.byFile.entries, P.source e.1) :
        ∀ e ∈ (ds.foldl Diagnostics.retract all).byFile.entries, P.source e.1 := by
      induction ds generalizing all with
      | nil => exact from_
      | cons d ds ih => exact ih (reported_retract from_ d)
    have pushed {ds : List Diagnostic} (sources : ∀ d ∈ ds, P.source d.file) {all : Diagnostics}
        (from_ : ∀ e ∈ all.byFile.entries, P.source e.1) :
        ∀ e ∈ (ds.foldl Diagnostics.push all).byFile.entries, P.source e.1 := by
      induction ds generalizing all with
      | nil => exact from_
      | cons d ds ih =>
        obtain ⟨here, others⟩ := List.forall_mem_cons.mp sources
        exact ih others (Twin.reported_push from_ d here)
    exact pushed sources (retracted _ twin.reported)

end Session

namespace Analysis

open Session

variable {P : Pairing} {st : Stage} {s s' t : Session}

/-! ## Loading -/

theorem load_inferTop (atTop : s.depth = 0) (path : Path) (force : Bool) :
    (load inferTop path force).run s = (load (infer s.options.maxDepth) path force).run s := by
  obtain ⟨same, -, -⟩ := load_does (inferTop_follows .any atTop) (ready_self s.sound_any) path force
  rw [same, atTop, Nat.sub_zero]

theorem apply_inferTop (atTop : s.depth = 0) (id : FunctionId) (receiver : Ty) :
    (apply inferTop id receiver {}).run s = (apply (infer s.options.maxDepth) id receiver {}).run s := by
  obtain ⟨same, -, -⟩ := apply_does (inferTop_follows .any atTop) (ready_self s.sound_any) id
    (show Regime.any.ty receiver from trivial) .none
  rw [same, atTop, Nat.sub_zero]

def tellLoad (path : Path) (force : Bool) : Told (Option Ty) :=
  do load (tell (← get).options.maxDepth) path force

theorem tellLoad_run (path : Path) (force : Bool) (s : Session) :
    tellLoad path force s = load (tell s.options.maxDepth) path force s := rfl

theorem tellLoad_eq (atTop : s.depth = 0) (path : Path) (force : Bool) :
    (tellLoad path force s).1 = ((load inferTop path force).run s).1 ∧
      (tellLoad path force s).2.1 = ((load inferTop path force).run s).2 := by
  obtain ⟨events, same, -⟩ := load_tells (p := True) (inferTop_hears atTop) path force fun _ => trivial
  have told : tellLoad path force s =
      (((load inferTop path force).run s).1, ((load inferTop path force).run s).2, events) := same
  rw [told]
  exact ⟨rfl, rfl⟩

theorem load_twin (twin : Session.Twin P st s s') (atTop : s.depth = 0) {path : Path}
    (target : P.target path) (force : Bool)
    (ok : ∀ m ∈ through (tellLoad path force s).2.2, P.ok m) :
    ∃ st', st ≤ st' ∧ Session.Twin P st' ((load inferTop path force).run s).2
      ((load inferTop path force).run s').2 := by
  have levels : s'.options.maxDepth = s.options.maxDepth := by rw [twin.options]
  have same := (tellLoad_eq atTop path force).2
  rw [tellLoad_run] at ok same
  obtain ⟨st', later, after, -⟩ := load_mirrors (tell_mirrors _) twin target force ok
  rw [same] at after
  rw [load_inferTop (twin.depth.trans atTop), levels]
  exact ⟨st', later, after⟩

theorem depth_load (atTop : s.depth = 0) (path : Path) (force : Bool) :
    ((load inferTop path force).run s).2.depth = 0 :=
  (runs_load s.sound_any atTop path force).guards.depth.trans atTop

theorem tellAll_twin (twin : Session.Twin P st s s') (atTop : s.depth = 0) {files : List Path}
    (targets : ∀ file ∈ files, P.target file) (ok : ∀ m ∈ through (tellAll files s).2.2, P.ok m) :
    ∃ st', st ≤ st' ∧ Session.Twin P st' (s.loadAll files) (s'.loadAll files) := by
  induction files generalizing st s s' with
  | nil => exact ⟨st, st.le_refl, twin⟩
  | cons file files ih =>
    obtain ⟨target, others⟩ := List.forall_mem_cons.mp targets
    cases there : s.loaded.contains file with
    | true =>
      have skipped (u : Session) (known : u.loaded.contains file = true) :
          u.loadAll (file :: files) = u.loadAll files :=
        congrArg (Session.loadAll · files) (if_pos known)
      have told : tellAll (file :: files) s = tellAll files s := by
        show (if s.loaded.contains file then tellAll files else _) s = _
        rw [there, if_pos rfl]
      rw [skipped s there, skipped s' (twin.loaded ▸ there)]
      rw [told] at ok
      exact ih twin atTop others ok
    | false =>
      have loads (u : Session) (new : u.loaded.contains file = false) :
          u.loadAll (file :: files) = ((load inferTop file false).run u).2.loadAll files := by
        refine congrArg (Session.loadAll · files) ?_
        show (if u.loaded.contains file then u else _) = _
        rw [new]
        rfl
      have told := tellAll_cons there (show load (tell s.options.maxDepth) file false s = (_, _, _) from rfl)
        (show tellAll files (load (tell s.options.maxDepth) file false s).2.1 = (⟨⟩, _, _) from rfl)
      rw [told, through_append, List.forall_mem_append] at ok
      obtain ⟨first, rest⟩ := ok
      obtain ⟨st₁, later₁, twin₁⟩ := load_twin twin atTop target false first
      have same : (load (tell s.options.maxDepth) file false s).2.1 =
          ((load inferTop file false).run s).2 := (tellLoad_eq atTop file false).2
      rw [same] at rest
      obtain ⟨st₂, later₂, twin₂⟩ := ih twin₁ (depth_load atTop file false) others rest
      rw [loads s there, loads s' (twin.loaded ▸ there)]
      exact ⟨st₂, Stage.le_trans later₁ later₂, twin₂⟩

/-! ## Draining -/

def tellOne (id : FunctionId) : Told Unit := fun s =>
  if s.uncalled.contains id then
    let r := apply (tell s.options.maxDepth) id (s.defaultSelf id) {} s
    let t := { r.2.1 with exhausted := false, depth := 0 }
    (⟨⟩, t, r.2.2 ++ [.change r.2.1 t])
  else (⟨⟩, s, [])

def tellDrain : (rounds : Nat) → Session → Option Session × List Event
  | 0, s => (if s.uncalled.isEmpty then some s else none, [])
  | rounds + 1, s =>
    if s.uncalled.isEmpty then (some s, [])
    else
      let round := s.uncalled.forM tellOne s
      let rest := tellDrain rounds round.2.1
      (rest.1, round.2.2 ++ rest.2)

theorem tellApply_eq (atTop : s.depth = 0) (id : FunctionId) (receiver : Ty) :
    (apply (tell s.options.maxDepth) id receiver {} s).2.1 = ((apply inferTop id receiver {}).run s).2 := by
  obtain ⟨events, same, -⟩ := apply_tells (p := False) (inferTop_hears atTop) id receiver {}
  rw [same]

theorem tellOne_eq (atTop : s.depth = 0) (id : FunctionId) : (tellOne id s).2.1 = s.drainOne id := by
  unfold tellOne drainOne
  dsimp only
  rw [← tellApply_eq atTop]
  split <;> rfl

theorem depth_drainOne (atTop : s.depth = 0) (id : FunctionId) : (s.drainOne id).depth = 0 := by
  unfold drainOne
  split
  · rfl
  · exact atTop

theorem tellOnes_eq (atTop : s.depth = 0) (ids : List FunctionId) :
    (ids.forM tellOne s).2.1 = ids.foldl drainOne s ∧ (ids.foldl drainOne s).depth = 0 := by
  induction ids generalizing s with
  | nil => exact ⟨rfl, atTop⟩
  | cons id ids ih =>
    have next := ih (depth_drainOne atTop id)
    rw [← tellOne_eq atTop] at next
    rw [List.foldl_cons, ← tellOne_eq atTop]
    exact next

theorem drainOne_twin (twin : Session.Twin P st s s') (atTop : s.depth = 0) {id id' : FunctionId}
    (known : P.FunctionTwin id id') (ok : ∀ m ∈ through (tellOne id s).2.2, P.ok m) :
    ∃ st', st ≤ st' ∧ Session.Twin P st' (s.drainOne id) (s'.drainOne id') := by
  have levels : s'.options.maxDepth = s.options.maxDepth := by rw [twin.options]
  have waits : s'.uncalled.contains id' = s.uncalled.contains id := by
    rw [Bool.eq_iff_iff, List.contains_iff_mem, List.contains_iff_mem]
    exact (List.rel_mem (Twin.functionTwin_biUnique _) known twin.uncalled).symm
  unfold tellOne at ok
  unfold drainOne
  rw [waits]
  split at ok
  · rename_i waiting
    rw [through_append, List.forall_mem_append] at ok
    obtain ⟨st', later, after, -⟩ :=
      apply_mirrors (tell_mirrors _) twin known (twin.defaultSelf_twin known) .none ok.1
    rw [tellApply_eq atTop] at after
    rw [waiting, apply_inferTop (twin.depth.trans atTop), levels]
    exact ⟨st', later, (after.setExhausted false).setDepth 0⟩
  · rename_i gone
    rw [if_neg gone, if_neg gone]
    exact ⟨st, st.le_refl, twin⟩

theorem drainOnes_twin (twin : Session.Twin P st s s') (atTop : s.depth = 0) {ids ids' : List FunctionId}
    (known : List.Forall₂ P.FunctionTwin ids ids') (ok : ∀ m ∈ through (ids.forM tellOne s).2.2, P.ok m) :
    ∃ st', st ≤ st' ∧ Session.Twin P st' (ids.foldl drainOne s) (ids'.foldl drainOne s') := by
  induction known generalizing st s s' with
  | nil => exact ⟨st, st.le_refl, twin⟩
  | @cons id id' ids ids' first _ ih =>
    replace ok : ∀ m ∈ through ((tellOne id s).2.2 ++ (ids.forM tellOne (tellOne id s).2.1).2.2), P.ok m := ok
    rw [through_append, List.forall_mem_append, tellOne_eq atTop] at ok
    obtain ⟨st₁, later₁, twin₁⟩ := drainOne_twin twin atTop first ok.1
    obtain ⟨st₂, later₂, twin₂⟩ := ih twin₁ (depth_drainOne atTop id) ok.2
    exact ⟨st₂, Stage.le_trans later₁ later₂, twin₂⟩

theorem drain?_twin (twin : Session.Twin P st s s') (atTop : s.depth = 0) (rounds : Nat)
    (ok : ∀ m ∈ through (tellDrain rounds s).2, P.ok m) :
    Option.Rel (fun t t' => ∃ st', st ≤ st' ∧ Session.Twin P st' t t') (drain? rounds s)
      (drain? rounds s') := by
  induction rounds generalizing st s s' with
  | zero =>
    unfold drain?
    rw [isEmpty_eq twin.uncalled]
    split
    · exact .some ⟨st, st.le_refl, twin⟩
    · exact .none
  | succ rounds ih =>
    obtain ⟨same, back⟩ := tellOnes_eq atTop s.uncalled
    unfold tellDrain at ok
    unfold drain?
    rw [isEmpty_eq twin.uncalled]
    split
    · exact .some ⟨st, st.le_refl, twin⟩
    · rename_i pending
      rw [if_neg pending] at ok
      dsimp only at ok
      rw [through_append, List.forall_mem_append, same] at ok
      obtain ⟨st₁, later₁, twin₁⟩ := drainOnes_twin twin atTop twin.uncalled ok.1
      refine optionRel_imp (fun t t' alike => ?_) (ih twin₁ back ok.2)
      obtain ⟨st₂, later₂, twin₂⟩ := alike
      exact ⟨st₂, Stage.le_trans later₁ later₂, twin₂⟩

structure Lasting (P : Session → List Event → Session → Prop) : Prop where
  nil (s : Session) : P s [] s
  append {s t u : Session} {first second : List Event} : P s first t → P t second u → P s (first ++ second) u
  course {p : Prop} {s t : Session} {events : List Event} : Course p none s events t → P s events t
  cleared (s : Session) : P s [.change s { s with exhausted := false, depth := 0 }]
      { s with exhausted := false, depth := 0 }

theorem lasting_gathers : Lasting Gathers where
  nil := .nil
  append := .append
  course := Course.gathers
  cleared s := .change { Onward.refl s with }

namespace Lasting

variable {P : Session → List Event → Session → Prop}

section

variable (lasting : Lasting P) (atTop : s.depth = 0)
include lasting atTop

theorem load (path : Path) (force : Bool) :
    P s (tellLoad path force s).2.2 ((Analysis.load inferTop path force).run s).2 := by
  obtain ⟨events, same, course, -⟩ :=
    load_tells (p := True) (inferTop_hears atTop) path force fun _ => trivial
  rw [tellLoad_run, same]
  exact lasting.course course

theorem all (files : List Path) : P s (tellAll files s).2.2 (s.loadAll files) := by
  obtain ⟨t, events, told, ran, course⟩ := tellAll_course files atTop
  rw [told, ran]
  exact lasting.course course

theorem one (id : FunctionId) : P s (tellOne id s).2.2 (s.drainOne id) := by
  obtain ⟨events, same, course, -⟩ := apply_tells (p := False) (inferTop_hears atTop) id (s.defaultSelf id) {}
  unfold tellOne drainOne
  split
  · dsimp only
    rw [same]
    exact lasting.append (lasting.course course) (lasting.cleared _)
  · exact lasting.nil s

theorem ones (ids : List FunctionId) : P s (ids.forM tellOne s).2.2 (ids.foldl drainOne s) := by
  induction ids generalizing s with
  | nil => exact lasting.nil s
  | cons id ids ih =>
    have first := lasting.one atTop id
    have rest := ih (depth_drainOne atTop id)
    show P s ((tellOne id s).2.2 ++ (ids.forM tellOne (tellOne id s).2.1).2.2)
        (ids.foldl drainOne (s.drainOne id))
    rw [tellOne_eq atTop]
    exact lasting.append first rest

theorem drain {rounds : Nat} (drained : drain? rounds s = some t) : P s (tellDrain rounds s).2 t := by
  induction rounds generalizing s with
  | zero =>
    unfold drain? at drained
    split at drained
    · cases drained
      exact lasting.nil t
    · cases drained
  | succ rounds ih =>
    obtain ⟨same, back⟩ := tellOnes_eq atTop s.uncalled
    unfold drain? at drained
    unfold tellDrain
    split at drained
    · rename_i empty
      cases drained
      rw [if_pos empty]
      exact lasting.nil t
    · rename_i pending
      rw [if_neg pending]
      dsimp only
      rw [same]
      exact lasting.append (lasting.ones atTop s.uncalled) (ih back drained)

end

end Lasting

theorem finish?_twin (twin : Session.Twin P st s s') (atTop : s.depth = 0) (rounds : Nat)
    (ok : ∀ m ∈ through (tellDrain rounds { s with phase := .fixpoint }).2, P.ok m) :
    Option.Rel (fun r r' => ∃ st', st ≤ st' ∧ Session.Twin P st' r.2 r'.2) (finish? rounds s)
      (finish? rounds s') := by
  have begun : Session.Twin P st { s with phase := .fixpoint } { s' with phase := .fixpoint } :=
    { twin with phase := rfl }
  have drained := drain?_twin begun atTop rounds ok
  rw [finish?_eq, finish?_eq]
  generalize drain? rounds { s with phase := .fixpoint } = x,
    drain? rounds { s' with phase := .fixpoint } = y at drained
  cases drained with
  | none => exact .none
  | some alike =>
    obtain ⟨st', later, after⟩ := alike
    exact .some ⟨st', later, { after.reportUnused with phase := rfl }⟩

end Analysis

end RubyInfer
