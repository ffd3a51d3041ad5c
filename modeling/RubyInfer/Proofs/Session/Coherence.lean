import RubyInfer.Proofs.Session.Reachable
import RubyInfer.Proofs.Store.Linked

/-!
# The indices of a session agree

A session keeps the same facts in several places: the scopes and the registry, the reference index
and the list of resolved nodes, the unresolved nodes and the reports about them. `Coherent` says
that these agree. Changes keep it, hence runs, hence operations: it holds of every reachable
session.
-/

namespace RubyInfer.Session

def Reported (s : Session) (node : NodeRef) : Prop :=
  ∃ id, s.nameOf? node = some id ∧ ∃ d ∈ s.diagnostics.forFile node.file, d.category = .error ∧
    d.message = "unbound variable " ++ id ∧ d.span.start = (s.span node).start ∧
    d.span.stop = (s.span node).stop

structure Coherent (s : Session) : Prop where
  linked : Linked s.scopes s.registry
  resolved (node : NodeRef) : node ∈ s.resolved ↔ node ∈ s.registry.keys
  distinct : s.resolved.Nodup
  apart : ∀ node ∈ s.resolved, node ∉ s.unresolved
  reported : ∀ node ∈ s.unresolved, s.Reported node
  warnings (file : Path) : ∀ d ∈ s.diagnostics.forFile file, d.category = .warning →
      ∃ name, d.message = "unused variable: " ++ name

variable {s t : Session}

/-! ## Reports -/

theorem unused_ne_unbound (name id : String) : "unused variable: " ++ name ≠ "unbound variable " ++ id := by
  intro same
  have letters := congrArg String.toList same
  simp at letters

theorem Reported.kept {node : NodeRef} (reported : s.Reported node)
    (trees : s.cache.trees.toList <+: t.cache.trees.toList)
    (kept : ∀ d ∈ s.diagnostics.forFile node.file, ∀ id, d.message = "unbound variable " ++ id →
      d ∈ t.diagnostics.forFile node.file) :
    t.Reported node := by
  obtain ⟨id, named, d, mem, error, message, start, stop⟩ := reported
  obtain ⟨still, span⟩ := nameOf?_retained trees named
  exact ⟨id, still, d, kept d mem id message, error, message, span ▸ start, span ▸ stop⟩

theorem Coherent.transfer (coherent : s.Coherent) (trees : s.cache.trees.toList <+: t.cache.trees.toList)
    (linked : Linked t.scopes t.registry) (references : t.registry.references = s.registry.references)
    (resolved : t.resolved = s.resolved := by rfl) (unresolved : t.unresolved = s.unresolved := by rfl)
    (diagnostics : t.diagnostics = s.diagnostics := by rfl) : t.Coherent where
  linked := linked
  resolved node := by
    unfold Registry.keys
    rw [resolved, references]
    exact coherent.resolved node
  distinct := resolved ▸ coherent.distinct
  apart := by
    rw [resolved, unresolved]
    exact coherent.apart
  reported node mem := by
    rw [unresolved] at mem
    refine (coherent.reported node mem).kept trees fun d here _ _ => ?_
    rw [diagnostics]
    exact here
  warnings := by
    rw [diagnostics]
    exact coherent.warnings

theorem Coherent.report (coherent : s.Coherent) (d : Diagnostic)
    (fits : d.category = .warning → ∃ name, d.message = "unused variable: " ++ name) :
    Coherent { s with diagnostics := s.diagnostics.push d } where
  linked := coherent.linked
  resolved := coherent.resolved
  distinct := coherent.distinct
  apart := coherent.apart
  reported node mem :=
    (coherent.reported node mem).kept List.prefix_rfl fun _ here _ _ =>
      (s.diagnostics.prefix_forFile_push d node.file).subset here
  warnings file x mem warning := by
    obtain old | rfl := Diagnostics.mem_forFile_push mem
    · exact coherent.warnings file x old warning
    · exact fits warning

theorem Coherent.retract (coherent : s.Coherent) (d : Diagnostic) {name : String}
    (unused : d.message = "unused variable: " ++ name) :
    Coherent { s with diagnostics := s.diagnostics.retract d } where
  linked := coherent.linked
  resolved := coherent.resolved
  distinct := coherent.distinct
  apart := coherent.apart
  reported node mem := by
    refine (coherent.reported node mem).kept List.prefix_rfl fun x here id unbound => ?_
    refine Diagnostics.mem_forFile_retract.mpr ⟨here, fun ⟨_, same⟩ => ?_⟩
    obtain ⟨-, -, message⟩ := of_decide_eq_true same
    exact unused_ne_unbound name id (unused.symm.trans (message.trans unbound))
  warnings file x mem := coherent.warnings file x (Diagnostics.mem_forFile_retract.mp mem).1

/-! ## Changes -/

theorem Coherent.refer (coherent : s.Coherent) (node : NodeRef) {ids : List BindingId}
    (held : ∀ id ∈ ids, s.scopes.Holds id) :
    (s.refer node ids).Coherent := by
  have among (n : NodeRef) : n ∈ (s.refer node ids).resolved ↔ n ∈ s.resolved ∨ n = node := by
    show n ∈ (if s.resolved.contains node then s.resolved else s.resolved ++ [node]) ↔ _
    split
    · rename_i there
      rw [List.contains_iff_mem] at there
      exact ⟨.inl, fun h => h.elim id fun same => same ▸ there⟩
    · simp
  refine ⟨coherent.linked.putRef node held, fun n => ?_, ?_, fun n mem => ?_, fun n mem => ?_,
    coherent.warnings⟩
  · rw [among, coherent.resolved]
    exact Registry.mem_keys_putRef.symm
  · show (if s.resolved.contains node then s.resolved else s.resolved ++ [node]).Nodup
    split
    · exact coherent.distinct
    · rename_i new
      exact nodup_append_new coherent.distinct (by simpa using new)
  · show n ∉ s.unresolved.filter (· ≠ node)
    rw [List.mem_filter, not_and]
    intro pending other
    obtain before | same := (among n).mp mem
    · exact coherent.apart n before pending
    · simp [same] at other
  · exact coherent.reported n (List.mem_filter.mp mem).1

theorem Coherent.unresolved (coherent : s.Coherent) {node : NodeRef} {id : String}
    (named : s.nameOf? node = some id)
    (reported : s.diagnostics.has (s.unboundReport node id) = true) (unsettled : node ∉ s.resolved) :
    Coherent { s with unresolved := s.unresolved ++ [node] } := by
  refine ⟨coherent.linked, coherent.resolved, coherent.distinct, fun n settled => ?_, fun n mem =>
    ?_, coherent.warnings⟩
  · refine List.not_mem_append (coherent.apart n settled) fun last => unsettled ?_
    rw [← List.mem_singleton.mp last]
    exact settled
  · obtain old | last := List.mem_append.mp mem
    · exact coherent.reported n old
    · rw [List.mem_singleton.mp last]
      obtain ⟨d, here, same⟩ := List.any_eq_true.mp reported
      obtain ⟨start, stop, message⟩ : (s.span node).start = d.span.start ∧ (s.span node).stop = d.span.stop ∧
          "unbound variable " ++ id = d.message := of_decide_eq_true same
      -- A warning with this text would be about something unused.
      have error : d.category = .error := by
        cases kind : d.category with
        | error => rfl
        | warning =>
          obtain ⟨name, unused⟩ := coherent.warnings node.file d here kind
          exact absurd (unused.symm.trans message.symm) (unused_ne_unbound name id)
      exact ⟨id, named, d, here, error, message.symm, start.symm, stop.symm⟩

theorem Update.coherent (step : Update .placed s t) (coherent : s.Coherent) : t.Coherent := by
  have linked := coherent.linked
  have kept := step.retains.trees
  cases step with
  | bind scope tier name node body kind ty inRange =>
    exact coherent.transfer kept (linked.insert (inRange trivial) tier _) (Registry.references_register ..)
  | enter scope name tier id held =>
    exact coherent.transfer kept (linked.enter (held trivial) scope name tier) rfl
  | refineAttributes ids ty =>
    have references : (s.refineAttributes ids ty).registry.references = s.registry.references :=
      Registry.references_modifyAll ..
    refine coherent.transfer kept (linked.live (fun id => ?_) references) references
    unfold Session.refineAttributes
    rw [Registry.get?_modifyAll, Option.isSome_map]
  | refer node ids held => exact coherent.refer node held
  | report node id => exact coherent.report _ fun warning => nomatch warning
  | unresolved node id named reported unsettled new => exact coherent.unresolved named reported unsettled
  | newModule name qname parent => exact coherent.transfer kept (linked.push ..) rfl
  | newClass name qname parent => exact coherent.transfer kept ((linked.push ..).push ..) rfl
  | newFrame id kind => exact coherent.transfer kept (linked.push ..) rfl
  | recordFailure file =>
    have reported := coherent.report (.onFile file .error "failed to parse") fun warning => nomatch warning
    exact reported.transfer kept linked rfl
  | _ => exact coherent.transfer kept linked rfl

theorem Change.coherent (change : Change .placed s t) (coherent : s.Coherent) : t.Coherent := by
  have kept := change.retains.trees
  cases change with
  | update step => exact step.coherent coherent
  | _ => exact coherent.transfer kept coherent.linked rfl

/-! ## Operations -/

theorem Advance.coherent (step : Advance s t) (atTop : s.depth = 0) (sound : s.Sound .placed)
    (coherent : s.Coherent) :
    t.Coherent := by
  cases step with
  | begin => exact coherent.transfer List.prefix_rfl coherent.linked rfl
  | prewarm paths => exact coherent.transfer (s.cache.prefix_trees_prewarm paths s.files) coherent.linked rfl
  | load path force => exact (runs_load sound atTop path force).keeps Change.coherent coherent
  | drain id =>
    have left := (runs_apply sound atTop id).keeps Change.coherent coherent
    exact left.transfer List.prefix_rfl left.linked rfl

theorem Coherent.removeFile (coherent : s.Coherent) (path : Path) : (s.removeFile path).Coherent := by
  have elsewhere {nodes : List NodeRef} {n : NodeRef} :
      n ∈ nodes.filter (fun node => !node.file.same (s.files.settle path)) ↔
        n ∈ nodes ∧ n.file.same (s.files.settle path) = false := by
    simp [List.mem_filter]
  have reports (file : Path) : (s.removeFile path).diagnostics.forFile file =
      if (s.files.settle path).same file then [] else s.diagnostics.forFile file :=
        Diagnostics.forFile_removeFile ..
  refine ⟨coherent.linked.removeFile (s.files.settle path), fun n => ?_, coherent.distinct.filter _,
    fun n mem => ?_,
    fun n mem => ?_, fun file d mem => ?_⟩
  · have keys : n ∈ (s.removeFile path).registry.keys ↔ _ := coherent.linked.indexed.mem_keys_removeFile
    rw [keys, ← coherent.resolved]
    exact elsewhere
  · intro still
    exact coherent.apart n (elsewhere.mp mem).1 (elsewhere.mp still).1
  · obtain ⟨before, other⟩ := elsewhere.mp mem
    refine (coherent.reported n before).kept List.prefix_rfl fun d here _ _ => ?_
    rw [reports, Path.same_comm, other]
    exact here
  · rw [reports] at mem
    split at mem
    · simp at mem
    · exact coherent.warnings file d mem

theorem Coherent.reports {f : Diagnostics → Diagnostic → Diagnostics}
    (each : ∀ {s : Session} (d : Diagnostic) {name : String}, s.Coherent →
      d.message = "unused variable: " ++ name →
      Coherent { s with diagnostics := f s.diagnostics d })
    (bindings : List Binding) (names : Session) (coherent : s.Coherent) :
    Coherent { s with diagnostics := (bindings.map names.unusedWarning).foldl f s.diagnostics } := by
  induction bindings generalizing s with
  | nil => exact coherent
  | cons b bindings ih => exact ih (each (names.unusedWarning b) coherent rfl)

theorem Coherent.reportUnused (coherent : s.Coherent) : s.reportUnused.Coherent := by
  have settled := coherent.reports (fun d _ coherent unused => coherent.retract d unused)
    (s.reportable.filter (fun b => !b.isUnused)) s
  exact settled.reports (fun d _ coherent unused => coherent.report d fun _ => ⟨_, unused⟩)
    (s.reportable.filter Binding.isUnused) s

theorem Act.coherent (step : Act s t) (idle : s.Idle) (sound : s.Sound .placed)
    (coherent : s.Coherent) : t.Coherent := by
  cases step with
  | advance step => exact step.coherent idle.depth sound coherent
  | edit | setStatic | clearCache => exact coherent.transfer List.prefix_rfl coherent.linked rfl
  | removeFile path => exact coherent.removeFile path
  | reportUnused => exact coherent.reportUnused

theorem new_coherent {options : Options} {files : FileTree}
    (made : Session.new options files = .ok s) : s.Coherent := by
  rw [new_eq made]
  exact ⟨.empty, fun _ => Iff.rfl, List.nodup_nil, fun _ mem => absurd mem List.not_mem_nil,
    fun _ mem => absurd mem List.not_mem_nil, fun _ _ mem => absurd mem List.not_mem_nil⟩

theorem Passed.coherent (passed : Passed s) : s.Coherent := by
  induction passed with
  | new made => exact new_coherent made
  | act before step coherent => exact step.coherent before.idle before.sound coherent

theorem Coherent.counted (coherent : s.Coherent) : s.summary.resolved = s.summary.referencingNodes := by
  show s.resolved.length = s.registry.referencingNodes
  rw [Registry.referencingNodes_eq]
  have same := (List.perm_ext_iff_of_nodup coherent.distinct coherent.linked.indexed.nodup_keys).mpr
    coherent.resolved
  exact same.length_eq

/-- **The indices of every reachable session agree.** -/
theorem coherent_of_reachable (reached : Reachable s) :
    s.Coherent ∧ s.summary.resolved = s.summary.referencingNodes :=
  ⟨reached.passed.coherent, reached.passed.coherent.counted⟩

/-- Three files have been loaded. One name stands for nothing, and another is bound in two of the
files. -/
def threeLoaded : Session :=
  let s := project [("a.rb", statements [assigning "x" (naming "y"), naming "x"]),
    ("b.rb", naming "x"), ("c.rb", assigning "x" (naming "x"))]
  (((s.loadFile ⟨"/a.rb"⟩).2.loadFile ⟨"/b.rb"⟩).2.loadFile ⟨"/c.rb"⟩).2

/-- One of the files goes, and the analysis ends with references to what is left. -/
theorem coherent_of_reachable_ended :
    ∃ s : Session, Reachable s ∧ s.phase = .done ∧ s.resolved.length = 2 ∧ s.unresolved.length = 1 ∧
      s.Coherent ∧
      s.summary.resolved = s.summary.referencingNodes := by
  have loaded : Reachable threeLoaded :=
    (((reachable_project _).loadFile ⟨"/a.rb"⟩).loadFile ⟨"/b.rb"⟩).loadFile ⟨"/c.rb"⟩
  have removed := (loaded.setStatic true).removeFile ⟨"/c.rb"⟩
  have counts : (finish? 1 (Session.removeFile { threeLoaded with staticContext := true } ⟨"/c.rb"⟩)).any
      (fun r => r.2.phase = .done ∧ r.2.resolved.length = 2 ∧ r.2.unresolved.length = 1) = true := by
    decide +kernel
  obtain ⟨⟨summary, s⟩, done, facts⟩ := (Option.any_eq_true ..).mp counts
  obtain ⟨phase, resolved, unresolved⟩ := of_decide_eq_true facts
  have reached := removed.finish done
  exact ⟨s, reached, phase, resolved, unresolved, coherent_of_reachable reached⟩

end RubyInfer.Session
