import RubyInfer.Proofs.Session.Coherence
import RubyInfer.Proofs.Store.Definition

/-!
# Warnings about unused names

Warnings outlive the scan that makes them, while references come and go and files are forgotten.
`Accounted` ties every warning to a binding that is still live: it holds of every reachable session,
since a warning goes with its file, as the binding does. The scan at the end of an analysis then
leaves exactly the warnings about what nothing refers to.
-/

namespace RubyInfer.Session

structure Defines (s : Session) (d : Definition) (file : Path) (start stop : UInt64)
    (name : String) : Prop where
  kind : d.kind = .variable ∨ d.kind = .parameter ∨ d.kind = .attr
  name : d.name = name
  file : d.node.file.same file = true
  start : (s.span d.node).start = start
  stop : (s.span d.node).stop = stop

structure Accounted (s : Session) : Prop where
  rooted {id : BindingId} {d : Definition} : s.registry.definition? id = some d →
      d.node.tree < s.cache.trees.size
  warned {file : Path} {x : Diagnostic} {name : String} : x ∈ s.diagnostics.forFile file →
    x.message = "unused variable: " ++ name → x.category = .warning ∧
      ∃ id d, s.registry.definition? id = some d ∧ s.Defines d file x.span.start x.span.stop name

variable {s t : Session}

/-! ## Changes -/

theorem Defines.retained {d : Definition} {file : Path} {start stop : UInt64} {name : String}
    (defines : s.Defines d file start stop name) (trees : s.cache.trees.toList <+: t.cache.trees.toList)
    (rooted : d.node.tree < s.cache.trees.size) : t.Defines d file start stop name := by
  have same : t.span d.node = s.span d.node :=
    congrArg (fun a : Ast => a.span d.node.id) (tree_retained trees rooted)
  exact { defines with start := same ▸ defines.start, stop := same ▸ defines.stop }

theorem Accounted.transfer (accounted : s.Accounted) (trees : s.cache.trees.toList <+: t.cache.trees.toList)
    (defined : ∀ id d, s.registry.definition? id = some d → t.registry.definition? id = some d)
    (rooted : ∀ id d, t.registry.definition? id = some d → d.node.tree < t.cache.trees.size)
    (reports : ∀ file x, x ∈ t.diagnostics.forFile file → x ∈ s.diagnostics.forFile file ∨
      ∀ name, x.message ≠ "unused variable: " ++ name) : t.Accounted where
  rooted here := rooted _ _ here
  warned mem message := by
    obtain old | other := reports _ _ mem
    · obtain ⟨warning, id, d, here, defines⟩ := accounted.warned old message
      exact ⟨warning, id, d, defined id d here, defines.retained trees (accounted.rooted here)⟩
    · exact absurd message (other _)

theorem Accounted.same (accounted : s.Accounted) (trees : s.cache.trees.toList <+: t.cache.trees.toList)
    (definitions : ∀ id, t.registry.definition? id = s.registry.definition? id)
    (diagnostics : t.diagnostics = s.diagnostics := by rfl) : t.Accounted := by
  refine accounted.transfer trees (fun id d here => (definitions id).trans here)
    (fun id d here => ?_) fun file x mem => ?_
  · rw [definitions] at here
    exact Nat.lt_of_lt_of_le (accounted.rooted here) (by simpa using trees.length_le)
  · rw [diagnostics] at mem
    exact .inl mem

theorem failed_ne_unused (name : String) : "failed to parse" ≠ "unused variable: " ++ name := by
  intro same
  have letters := congrArg String.toList same
  simp at letters

theorem Update.accounted (step : Update .placed s t) (accounted : s.Accounted) : t.Accounted := by
  have trees := step.retains.trees
  have unchanged (new : Diagnostic) (other : ∀ name, new.message ≠ "unused variable: " ++ name) :
      Accounted { s with diagnostics := s.diagnostics.push new } := by
    refine accounted.transfer List.prefix_rfl (fun _ _ here => here)
      (fun _ _ here => accounted.rooted here) fun file x mem => ?_
    obtain old | rfl := Diagnostics.mem_forFile_push mem
    · exact .inl old
    · exact .inr other
  cases step with
  | bind scope tier name node body kind ty inRange typed rooted =>
    refine accounted.transfer trees (fun _ _ here => Registry.definition?_register_of_some _ here)
      (fun id d here => ?_)
      fun _ _ mem => .inl mem
    obtain rfl | old := Registry.eq_or_definition?_of_register here
    · exact rooted trivial
    · exact accounted.rooted old
  | refineAttributes ids ty =>
    exact accounted.same trees fun id =>
      Registry.definition?_modifyAll (Binding.definition_refineAttribute ty) ids s.registry id
  | refer node ids => exact accounted.same trees (Registry.definition?_putRef s.registry node ids)
  | report node id => exact unchanged _ fun name same => unused_ne_unbound name id same.symm
  | recordFailure file =>
    have reported := unchanged (.onFile file .error "failed to parse") failed_ne_unused
    exact reported.same trees fun _ => rfl
  | _ => exact accounted.same trees fun _ => rfl

theorem Change.accounted (change : Change .placed s t) (accounted : s.Accounted) : t.Accounted := by
  have trees := change.retains.trees
  cases change with
  | update step => exact step.accounted accounted
  | _ => exact accounted.same trees fun _ => rfl

/-! ## Operations -/

theorem Advance.accounted (step : Advance s t) (atTop : s.depth = 0) (sound : s.Sound .placed)
    (accounted : s.Accounted) :
    t.Accounted := by
  cases step with
  | begin => exact accounted.same List.prefix_rfl fun _ => rfl
  | prewarm paths => exact accounted.same (s.cache.prefix_trees_prewarm paths s.files) fun _ => rfl
  | load path force => exact (runs_load sound atTop path force).keeps Change.accounted accounted
  | drain id =>
    have left := (runs_apply sound atTop id).keeps Change.accounted accounted
    exact left.same List.prefix_rfl fun _ => rfl

theorem Accounted.removeFile (accounted : s.Accounted) (path : Path) : (s.removeFile path).Accounted := by
  have definitions (id : BindingId) : (s.removeFile path).registry.definition? id =
      (s.registry.definition? id).filter (fun d => !d.node.file.same (s.files.settle path)) :=
    Registry.definition?_removeFile ..
  refine ⟨fun {id d} here => ?_, fun {file x name} mem message => ?_⟩
  · rw [definitions] at here
    exact accounted.rooted (Option.filter_eq_some_iff.mp here).1
  · have reports : (s.removeFile path).diagnostics.forFile file =
        if (s.files.settle path).same file then [] else s.diagnostics.forFile file :=
          Diagnostics.forFile_removeFile ..
    rw [reports] at mem
    split at mem
    · simp at mem
    · rename_i elsewhere
      obtain ⟨warning, id, d, here, defines⟩ := accounted.warned mem message
      have kept : d.node.file.same (s.files.settle path) = false := by
        rw [Path.same_comm, Path.same_congr defines.file]
        exact Bool.eq_false_iff.mpr elsewhere
      refine ⟨warning, id, d, ?_, { defines with }⟩
      rw [definitions, here]
      simp [kept]

/-! ## The scan -/

theorem mem_reportable {b : Binding} : b ∈ s.reportable ↔
    (∃ id, s.registry.get? id = some b) ∧ (b.kind = .variable ∨ b.kind = .parameter ∨ b.kind = .attr) := by
  have kinds : (!b.kind.exemptFromUnused) = true ↔ b.kind = .variable ∨ b.kind = .parameter ∨
      b.kind = .attr := by
    cases b.kind <;> decide
  unfold reportable
  rw [List.mem_filter, kinds]
  refine and_congr_left fun _ => ?_
  simp [Registry.mem_all]

theorem defines_unusedWarning {b : Binding}
    (kind : b.kind = .variable ∨ b.kind = .parameter ∨ b.kind = .attr) {file : Path}
    (here : b.file.same file = true) :
    s.Defines b.definition file (s.unusedWarning b).span.start (s.unusedWarning b).span.stop b.name :=
  ⟨kind, rfl, here, rfl, rfl⟩

theorem unused_injective {a b : String}
    (same : "unused variable: " ++ a = "unused variable: " ++ b) : a = b :=
  String.append_right_inj _ |>.mp same

theorem Accounted.reportUnused (accounted : s.Accounted) : s.reportUnused.Accounted := by
  refine ⟨accounted.rooted, fun {file x name} mem message => ?_⟩
  obtain old | ⟨new, here⟩ := Diagnostics.mem_forFile_pushAll mem
  · obtain ⟨warning, id, d, live, defines⟩ :=
    accounted.warned (Diagnostics.mem_forFile_retractAll.mp old).1 message
    exact ⟨warning, id, d, live, { defines with }⟩
  · obtain ⟨b, unused, rfl⟩ := List.mem_map.mp new
    obtain ⟨⟨id, live⟩, kind⟩ := mem_reportable.mp (List.mem_filter.mp unused).1
    obtain rfl : b.name = name := unused_injective message
    refine ⟨rfl, id, b.definition, Registry.definition?_eq_some.mpr ⟨b, live, rfl⟩, ?_⟩
    exact { defines_unusedWarning kind here with }

theorem Act.accounted (step : Act s t) (idle : s.Idle) (sound : s.Sound .placed)
    (accounted : s.Accounted) : t.Accounted := by
  cases step with
  | advance step => exact step.accounted idle.depth sound accounted
  | edit | setStatic | clearCache => exact accounted.same List.prefix_rfl fun _ => rfl
  | removeFile path => exact accounted.removeFile path
  | reportUnused => exact accounted.reportUnused

theorem new_accounted {options : Options} {files : FileTree}
    (made : Session.new options files = .ok s) : s.Accounted := by
  rw [new_eq made]
  exact ⟨fun here => by simp [Registry.definition?] at here, fun mem => absurd mem List.not_mem_nil⟩

theorem Passed.accounted (passed : Passed s) : s.Accounted := by
  induction passed with
  | new made => exact new_accounted made
  | act before step accounted => exact step.accounted before.idle before.sound accounted

theorem Accounted.warned_iff (accounted : s.Accounted) (file : Path) (start stop : UInt64) (name : String) :
    (∃ x ∈ s.reportUnused.diagnostics.forFile file, x.category = .warning ∧
      x.message = "unused variable: " ++ name ∧
        x.span.start = start ∧ x.span.stop = stop) ↔
      ∃ id b, s.registry.get? id = some b ∧ s.Defines b.definition file start stop name ∧ b.refs = [] := by
  constructor
  · rintro ⟨x, mem, -, message, rfl, rfl⟩
    obtain old | ⟨new, here⟩ := Diagnostics.mem_forFile_pushAll mem
    · -- An older warning is about a live binding, and was not taken back.
      obtain ⟨before, untouched⟩ := Diagnostics.mem_forFile_retractAll.mp old
      obtain ⟨-, id, d, here, defines⟩ := accounted.warned before message
      obtain ⟨b, live, rfl⟩ := Registry.definition?_eq_some.mp here
      refine ⟨id, b, live, defines, Decidable.byContradiction fun used => ?_⟩
      have reportable : b ∈ s.reportable := mem_reportable.mpr ⟨⟨id, live⟩, defines.kind⟩
      have among : b ∈ s.reportable.filter (fun b => !b.isUnused) :=
        List.mem_filter.mpr ⟨reportable, by simp [Binding.isUnused, used]⟩
      refine untouched _ (List.mem_map_of_mem among) ⟨defines.file, ?_⟩
      exact decide_eq_true ⟨defines.start, defines.stop, by rw [message, ← defines.name]; rfl⟩
    · obtain ⟨b, among, rfl⟩ := List.mem_map.mp new
      obtain ⟨reportable, unused⟩ := List.mem_filter.mp among
      obtain ⟨⟨id, live⟩, kind⟩ := mem_reportable.mp reportable
      obtain rfl : b.name = name := unused_injective message
      refine ⟨id, b, live, defines_unusedWarning kind here, ?_⟩
      simp only [Binding.isUnused, Bool.and_eq_true, List.isEmpty_iff] at unused
      exact unused.2
  · rintro ⟨id, b, live, defines, unused⟩
    have reportable : b ∈ s.reportable := mem_reportable.mpr ⟨⟨id, live⟩, defines.kind⟩
    have among : b ∈ s.reportable.filter Binding.isUnused := by
      refine List.mem_filter.mpr ⟨reportable, ?_⟩
      simpa [Binding.isUnused, unused] using (List.mem_filter.mp reportable).2
    have added : s.unusedWarning b ∈ (s.reportable.filter Binding.isUnused).map s.unusedWarning :=
      List.mem_map_of_mem among
    have here : (s.unusedWarning b).file.same file = true := defines.file
    obtain ⟨x, mem, same⟩ := Diagnostics.exists_mem_forFile_pushAll
      (((s.reportable.filter (fun b => !b.isUnused)).map s.unusedWarning).foldl Diagnostics.retract
        s.diagnostics) added here
    obtain ⟨start', stop', message⟩ := of_decide_eq_true same
    have text : x.message = "unused variable: " ++ name := by rw [← message, ← defines.name]; rfl
    exact ⟨x, mem, (accounted.reportUnused.warned mem text).1, text,
      start'.symm.trans defines.start, stop'.symm.trans defines.stop⟩

theorem exists_passed_of_finish (reached : Reachable s) {rounds : Nat} {summary : Summary}
    (ended : finish? rounds s = some (summary, t)) :
    ∃ u, Passed u ∧ t = { u.reportUnused with phase := .done } := by
  unfold finish? at ended
  obtain ⟨u, drained, rest⟩ := Option.bind_eq_some_iff.mp ended
  have started := reached.passed.act (.advance (.begin .fixpoint s.projectDir))
  exact ⟨u, started.advances (advances_drain drained), (congrArg Prod.snd (Option.some.inj rest)).symm⟩

/-- **Warnings about unused names are exact.** -/
theorem unused_warnings_exact (reached : Reachable s) {rounds : Nat} {summary : Summary}
    (ended : finish? rounds s = some (summary, t)) (file : Path) (start stop : UInt64) (name : String) :
    (∃ x ∈ t.diagnostics.forFile file, x.category = .warning ∧ x.message = "unused variable: " ++ name ∧
        x.span.start = start ∧ x.span.stop = stop) ↔
      ∃ id b, t.registry.get? id = some b ∧ t.Defines b.definition file start stop name ∧ b.refs = [] := by
  obtain ⟨u, passed, rfl⟩ := exists_passed_of_finish reached ended
  refine (passed.accounted.warned_iff file start stop name).trans ?_
  constructor
  · rintro ⟨id, b, live, defines, unused⟩
    exact ⟨id, b, live, { defines with }, unused⟩
  · rintro ⟨id, b, live, defines, unused⟩
    exact ⟨id, b, live, { defines with }, unused⟩

def assignment : String :=
  "\x7b\"type\":\"assign\",\"target\":\x7b\"type\":\"name\",\"id\":\"x\",\"end\":1\x7d," ++
    "\"value\":\x7b\"type\":\"void\"\x7d\x7d"

def beforeAssignment : Session where
  options := { cacheDir := ⟨"cache"⟩, diskCache := false }
  files := { root := .folder [("a.rb", .file assignment.toUTF8)] }
  cache := { dumper := .content }

/-- A name is assigned and never read: the end of the analysis warns about it, at its place. -/
theorem unused_warnings_exact_assigned :
    ∃ s t : Session, Reachable s ∧ (∃ summary, finish? 0 s = some (summary, t)) ∧
      ∃ x ∈ t.diagnostics.forFile ⟨"/a.rb"⟩, x.category = .warning ∧ x.message = "unused variable: " ++ "x" ∧
        x.span.start = 0 ∧ x.span.stop = 1 := by
  have fresh : Reachable beforeAssignment := reachable_empty _ _ rfl rfl
  have ends : (finish? 0 (beforeAssignment.loadFile ⟨"/a.rb"⟩).2).any
      (fun r => (r.2.registry.get? 0).any fun b =>
        b.kind = .variable ∧ b.name = "x" ∧ b.file.same ⟨"/a.rb"⟩ ∧
          (r.2.span b.node).start = 0 ∧ (r.2.span b.node).stop = 1 ∧ b.refs = []) = true := by
    decide +kernel
  obtain ⟨⟨summary, t⟩, ended, bound⟩ := (Option.any_eq_true ..).mp ends
  obtain ⟨b, live, facts⟩ := (Option.any_eq_true ..).mp bound
  obtain ⟨kind, name, file, start, stop, unused⟩ := of_decide_eq_true facts
  refine ⟨_, t, fresh.loadFile ⟨"/a.rb"⟩, ⟨summary, ended⟩, ?_⟩
  exact (unused_warnings_exact (fresh.loadFile _) ended _ 0 1 "x").mpr
    ⟨0, b, live, ⟨.inl kind, name, file, start, stop⟩, unused⟩

end RubyInfer.Session
