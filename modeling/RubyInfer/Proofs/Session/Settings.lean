import Mathlib.Data.List.Find
import RubyInfer.Proofs.Cache.Paired
import RubyInfer.Proofs.Session.Elsewhere
import RubyInfer.Proofs.Session.Shown

/-!
# Settings of the cache

An analysis shows the same whether trees are read ahead and whether entries are kept on disk, and
whatever entries there are. It is compared to the plain analysis, which does neither: of that one it
is known which files it asks for, in which folders it looks for required files, and which words may
name them. As long as nothing of this leads through the folder of the entries, sessions stay alike.
-/

namespace RubyInfer

/-! ## Words -/

namespace Ast

def words (ast : Ast) : List String :=
  ast.nodes.toList.filterMap fun node =>
    match node.kind with
    | .str value => some value
    | .name name .plain => if isConstant name then some (snakeCase name) else none
    | _ => none

theorem speaks_of_words {ast : Ast} {text : String → Prop} (all : ∀ w ∈ ast.words, text w) :
    ast.Speaks text := by
  intro id
  unfold kind
  cases here : ast.nodes[id]? with
  | none => simp
  | some node =>
    have listed : node ∈ ast.nodes.toList := Array.mem_toList_iff.mpr (Array.mem_of_getElem? here)
    simp only [Option.map_some, Option.getD_some]
    refine ⟨fun value written => all value ?_, fun name written constant => all _ ?_⟩
    · exact List.mem_filterMap.mpr ⟨node, listed, by rw [written]⟩
    · exact List.mem_filterMap.mpr ⟨node, listed, by rw [written]; exact if_pos constant⟩

end Ast

/-! ## Analyses -/

structure Job where
  options : Options
  files : FileTree
  root : Path
  rounds : Nat

namespace Job

open Session Analysis Cache FileTree

variable (job : Job)

def seen (s : Session) : Option (View × Summary) := (finish? job.rounds s).map fun e => (e.2.view, e.1)

def observed : Except AnalysisError (Option (View × Summary)) := do
  let s ← Session.new job.options job.files
  let s ← s.analyze job.root
  return job.seen s

def under (prewarm diskCache : Bool) (files : FileTree) : Job :=
  { job with options := { job.options with prewarm, diskCache }, files }

def plain : Session where
  options := { job.options with prewarm := false, diskCache := false }
  files := job.files
  cache := { dumper := .content }

def tier (diskCache : Bool) : Option Path := if diskCache then some job.options.cacheDir else none

theorem tier_eq (diskCache : Bool) :
    job.tier diskCache = none ∨ job.tier diskCache = some job.options.cacheDir := by
  cases diskCache <;> simp [tier]

def start (prewarm diskCache : Bool) (files : FileTree) : Session :=
  let (cache, files) := Cache.fresh (job.tier diskCache) files
  { options := { job.options with prewarm, diskCache }, files, cache }

def sources : List Path :=
  match job.files.canonical job.root with
  | .error _ => []
  | .ok top => job.plain.sources top

def moments : List Session :=
  match job.plain.tellAnalyze job.root with
  | .error _ => []
  | .ok (t, events) => through events ++ through (tellDrain job.rounds { t with phase := .fixpoint }).2

def asked : List Path := job.sources ++ job.moments.flatMap fun m => m.cache.memory.entries.map Prod.fst

def project : Option Path :=
  match job.files.canonical job.root with
  | .error _ => none
  | .ok top => some (if job.files.isFolder top then top else top.parent?.getD top)

def folders : List Path := job.options.loadPath ++ job.project.toList ++ job.asked.filterMap Path.parent?

def words : List String := job.moments.flatMap fun m => m.cache.trees.toList.flatMap Ast.words

/-- A region is out of the way of the plain analysis: it is outside the root, no file is asked for
in it, and no word leads through it from a folder in which required files are looked for, nor ends
like an entry where that folder is around the region. The region holds nothing but entries, and the
contents of files that are asked for are told apart. -/
structure Secluded (region : List String) (contents : List (String × ByteArray)) : Prop where
  content : job.options.dumper = .ok .content
  named : job.files.Named
  ordered : job.files.root.Ordered
  accessible : job.files.Accessible
  root : job.files.Avoids region job.root
  around : ¬job.files.place job.root <+: region
  folders : ∀ d ∈ job.folders, job.files.Avoids region d
  words : ∀ w ∈ job.words, ∀ d ∈ job.folders, job.files.Avoids region (d.join (job.plain.requiredPath w)) ∧
    (job.files.place d <+: region → Entry.Foreign (job.plain.requiredPath w))
  reserved : Reserved region job.options.cacheDir contents job.files
  occurs : ∀ p ∈ job.asked, ∀ source, job.files.read p = .ok source → (p.baseName, source) ∈ contents
  legible : Legible contents

variable {job} {region : List String} {contents : List (String × ByteArray)} {t : FileTree} {s s' : Session}

theorem observed_under (content : job.options.dumper = .ok .content) (prewarm diskCache : Bool)
    (files : FileTree) :
    (job.under prewarm diskCache files).observed =
      ((job.start prewarm diskCache files).analyze job.root).map job.seen := by
  have made : Session.new (job.under prewarm diskCache files).options files =
      .ok (job.start prewarm diskCache files) := by
    show job.options.dumper.bind _ = _
    rw [content]
    cases diskCache <;> rfl
  show (Session.new (job.under prewarm diskCache files).options files).bind _ = _
  rw [made]
  rfl

/-! ## Where files are found -/

theorem keys_get {c : Cache} {file : Path} {files : FileTree} {p : Path → Prop}
    (keys : ∀ e ∈ c.memory.entries, p e.1) (new : p file) :
    ∀ e ∈ (c.get file files).2.1.memory.entries, p e.1 := by
  have remembered {d : Cache} (keys : ∀ e ∈ d.memory.entries, p e.1) (tree : Option Nat) :
      ∀ e ∈ (d.remember file tree).memory.entries, p e.1 := by
    intro e mem
    rcases PathMap.mem_entries_update mem with old | ⟨a, old, -, -⟩ | rfl
    · exact keys e old
    · exact keys (e.1, a) old
    · exact new
  obtain ⟨id, known, got⟩ | ⟨-, diskHits, parses, files', got | ⟨a, -, got⟩⟩ := c.get_outcome file files
  · rw [got]
    exact keys
  · rw [got]
    exact remembered (d := { c with diskHits, parses }) keys none
  · rw [got]
    exact remembered (d := { c with diskHits, parses, trees := c.trees.push a }) keys _

theorem mem_asked {c : Cache} {file : Path} {files : FileTree} (past : file.Past region)
    (keys : ∀ e ∈ c.memory.entries, e.1.Past region)
    (asked : ∀ e ∈ (c.get file files).2.1.memory.entries, e.1 ∈ job.asked) : file ∈ job.asked := by
  obtain ⟨e, mem, same⟩ := List.any_eq_true.mp (c.contains_get file files)
  rw [past.eq_of_same (keys_get keys past e mem) same]
  exact asked e mem

theorem exists_folder {w : String} (spoken : w ∈ job.words) : ∃ d, d ∈ job.folders := by
  obtain ⟨m, passed, -⟩ := List.mem_flatMap.mp spoken
  unfold moments tellAnalyze at passed
  cases there : job.files.canonical job.root with
  | error e =>
    rw [show job.plain.files.canonical job.root = .error e from there] at passed
    cases passed
  | ok top =>
    refine ⟨if job.files.isFolder top then top else top.parent?.getD top, ?_⟩
    have project : job.project = some (if job.files.isFolder top then top else top.parent?.getD top) := by
      unfold project
      rw [there]
    simp [folders, project]

namespace Secluded

variable {top : Path} {files : FileTree} {folder : Path}

theorem findBelow?_eq (secluded : job.Secluded region contents) (files : s.files = job.files)
    (stocked : Stocked region folder contents s'.files job.files) {d : Path} (mem : d ∈ job.folders)
    {rel : Path} (foreign : job.files.place d <+: region → Entry.Foreign rel) :
    s'.findBelow? rel d = s.findBelow? rel d ∧ ∀ p ∈ s.findBelow? rel d, p.Past region := by
  have agree := stocked.kept.agree.symm
  have place : s'.files.place d = job.files.place d := place_congr agree.working.symm d
  have avoids := secluded.folders d mem
  have outside := avoids _ (job.files.place_mem_stops d)
  have hides : Hides region job.files d fun p => p.endsIn rel :=
    secluded.reserved.hides secluded.named.1 outside foreign
  have hides' : Hides region s'.files d fun p => p.endsIn rel := by
    refine stocked.reserved.hides (agree.working ▸ secluded.named.1) ?_ ?_
    · rwa [place]
    · rwa [place]
  have found_eq : (s'.files.walk d).find? (fun p => p.endsIn rel) =
      (job.files.walk d).find? fun p => p.endsIn rel :=
    stocked.level.find?_walk stocked.kept.agree secluded.ordered (agree.avoids avoids) hides' hides
  unfold findBelow?
  rw [found_eq, files, ← agree.isFolder avoids]
  split
  · cases found : (job.files.walk d).find? (fun p => p.endsIn rel) with
    | none => simp
    | some p =>
      have ends : p.endsIn rel = true := List.find?_some (p := fun p : Path => p.endsIn rel) found
      have listed := List.mem_of_find?_eq_some found
      obtain ⟨names, leads⟩ := follow_of_mem_walk secluded.named secluded.ordered secluded.accessible listed
      obtain ⟨rest, some, home, below, rfl⟩ := mem_walk listed
      have past : job.files.Avoids region (d.join (Path.ofPieces rest)) := by
        refine avoids_below avoids home some (fun name here =>
          secluded.named.2 _ below name (List.mem_append_right _ here)) fun inside => ?_
        obtain ⟨content, there⟩ := secluded.ordered.look_of_mem_files below
        exact Bool.false_ne_true ((hides rest content inside there).symm.trans ends)
      simp only [Option.map_some, Option.mem_def, Option.some.injEq]
      refine ⟨(agree.settle past).symm, ?_⟩
      rintro _ rfl
      exact past_settle secluded.named.1 past leads
  · simp

theorem isFile_eq (secluded : job.Secluded region contents)
    (stocked : Stocked region folder contents s'.files job.files) {p : Path}
    (avoids : job.files.Avoids region p) :
    s'.files.isFile p = job.files.isFile p ∧ s'.files.settle p = job.files.settle p ∧
      (job.files.isFile p = true → (job.files.settle p).Past region) := by
  have agree := stocked.kept.agree.symm
  refine ⟨(agree.isFile avoids).symm, (agree.settle avoids).symm, fun there => ?_⟩
  obtain ⟨names, -, leads, -⟩ := isFile_iff.mp there
  exact past_settle secluded.named.1 avoids (follow_of_resolve leads)

theorem findRequired?_eq (secluded : job.Secluded region contents) (files : s.files = job.files)
    (stocked : Stocked region folder contents s'.files job.files) (alike : s.options.Alike s'.options)
    (suited : s.options = job.plain.options) (cwd : s'.cwd = s.cwd)
    (projectDir : s'.projectDir = s.projectDir)
    (roots : ∀ d ∈ s.requireRoots, d ∈ job.folders) {w : String} (spoken : w ∈ job.words) :
    s'.findRequired? (s'.requiredPath w) = s.findRequired? (s.requiredPath w) ∧
      ∀ path ∈ s.findRequired? (s.requiredPath w), path.Past region := by
  have loadPath : s'.options.loadPath = s.options.loadPath := by rw [alike]
  have suffix : s'.options.suffix = s.options.suffix := by rw [alike]
  have sameRoots : s'.requireRoots = s.requireRoots := by
    unfold requireRoots
    rw [loadPath, cwd, projectDir]
  have same : s'.requiredPath w = s.requiredPath w := by
    unfold requiredPath
    rw [suffix]
  have meant : s.requiredPath w = job.plain.requiredPath w := by
    unfold requiredPath
    rw [suited]
  have direct : ∀ d ∈ job.folders, job.files.Avoids region (d.join (s.requiredPath w)) ∧
      (job.files.place d <+: region → Entry.Foreign (s.requiredPath w)) := by
    rw [meant]
    exact secluded.words w spoken
  rw [same]
  generalize s.requiredPath w = rel at direct
  unfold findRequired?
  rw [sameRoots, files]
  split
  · rename_i absolute
    obtain ⟨d, mem⟩ := exists_folder spoken
    have avoids := (direct d mem).1
    rw [Path.join, if_pos absolute] at avoids
    obtain ⟨there, settled, past⟩ := secluded.isFile_eq stocked avoids
    rw [there, settled]
    refine ⟨rfl, fun path found => ?_⟩
    split at found
    · rename_i here
      cases found
      exact past here
    · cases found
  · have each : (s.requireRoots.map (·.join rel)).find? s'.files.isFile =
        (s.requireRoots.map (·.join rel)).find? job.files.isFile := by
      apply List.find?_congr
      rintro _ listed
      obtain ⟨d, mem, rfl⟩ := List.mem_map.mp listed
      exact (secluded.isFile_eq stocked (direct d (roots d mem)).1).1
    rw [each]
    cases found : (s.requireRoots.map (·.join rel)).find? job.files.isFile with
    | some p =>
      obtain ⟨d, mem, rfl⟩ := List.mem_map.mp (List.mem_of_find?_eq_some found)
      obtain ⟨-, settled, past⟩ := secluded.isFile_eq stocked (direct d (roots d mem)).1
      refine ⟨congrArg some settled, ?_⟩
      rintro _ ⟨⟩
      exact past (List.find?_some found)
    | none =>
      dsimp only
      have below (d : Path) (mem : d ∈ s.requireRoots) :=
        secluded.findBelow?_eq files stocked (roots d mem) (direct d (roots d mem)).2
      refine ⟨?_, fun path found => ?_⟩
      · generalize s.requireRoots = ds at below
        induction ds with
        | nil => rfl
        | cons d ds ih =>
          rw [List.findSome?_cons, List.findSome?_cons, (below d List.mem_cons_self).1,
            ih fun e mem => below e (List.mem_cons_of_mem _ mem)]
      · obtain ⟨d, mem, here⟩ := List.exists_of_findSome?_eq_some found
        exact (below d mem).2 path here

def pairing (secluded : job.Secluded region contents) : Pairing where
  offsets := {}
  vocabulary := ⟨fun _ => True, fun _ => True, fun _ => True, (· ∈ job.words)⟩
  source _ := True
  before := 0
  staleClass _ := False
  staleModule _ := False
  suited o := o = job.plain.options
  target := Path.Past region
  place := (· ∈ job.folders)
  ok m := (∀ e ∈ m.cache.memory.entries, e.1 ∈ job.asked) ∧ ∀ ast ∈ m.cache.trees, ∀ w ∈ ast.words,
    w ∈ job.words
  store L w w' := Paired region job.options.cacheDir contents job.files L w w' ∧
    (∀ n n', L n n' → ∀ ast ∈ w.1.trees[n]?, ast.Speaks (· ∈ job.words)) ∧ ∀ e ∈ w.1.memory.entries,
    e.1.Past region
  unique := fun stored => stored.1.unique
  trees := by
    intro L w w' n n' stored link
    obtain ⟨a, left, right⟩ := stored.1.linked link
    rw [left, right]
  speaks := fun stored link => stored.2.1 _ _ link
  clear := by
    rintro L w w' ⟨paired, speaks, -⟩
    exact ⟨paired.clear, speaks, by simp [Cache.clear]⟩
  settle := by
    intro L w w' path _ past
    rw [settle_of_past past, settle_of_past past]
  fetch := by
    rintro L s s' path ⟨paired, speaks, keys⟩ past ⟨asked, known⟩
    rw [settle_of_past past] at asked known ⊢
    have mem := mem_asked past keys asked
    obtain ⟨L', wider, after, got⟩ := paired.get secluded.legible past (secluded.occurs path mem)
    refine ⟨trivial, L', wider, ⟨after, fun n n' _ ast held => ?_, keys_get keys past⟩, ?_⟩
    · exact Ast.speaks_of_words (known ast (Array.mem_of_getElem? held))
    · have around : ∀ d ∈ path.parent?, d ∈ job.folders := fun d parent =>
        List.mem_append_right _ (List.mem_filterMap.mpr ⟨path, mem, parent⟩)
      exact optionRel_imp (fun n n' link => ⟨link, trivial, around⟩) got
  find := by
    rintro L s s' name ⟨paired, -, -⟩ alike suited cwd projectDir roots spoken
    exact secluded.findRequired?_eq paired.files paired.stocked alike suited cwd projectDir roots spoken
  classes := fun _ _ => ⟨fun stale => stale, trivial⟩
  modules := fun _ _ => ⟨fun stale => stale, trivial⟩
  functions := fun _ _ _ => trivial

theorem twin (secluded : job.Secluded region contents) {cache : Cache} {options : Options}
    {projectDir : Option Path} (alike : job.plain.options.Alike options)
    (paired : Paired region job.options.cacheDir contents job.files (fun _ _ => False)
      (job.plain.cache, job.files) (cache, files))
    (project : ∀ d ∈ projectDir, d ∈ job.folders) :
    Twin secluded.pairing ⟨fun _ _ => False, 1⟩ { job.plain with phase := .loading, projectDir }
      { options, files, cache, phase := .loading, projectDir } := by
  have nested : Nested ({} : Scopes) #[] := by
    have content : job.plain.options.dumper = .ok .content := secluded.content
    exact (reachable_empty job.plain.options job.files rfl content).passed.nested
  constructor
  · exact alike
  · exact rfl
  · exact ⟨paired, fun _ _ => False.elim, by simp [plain]⟩
  · rfl
  · exact scopesTwin_self rfl nested
  · exact ⟨rfl, fun i old => absurd old (Nat.not_lt_zero i), fun i => .none, .nil⟩
  · exact .taken #[]
  · exact Nat.zero_le _
  · exact .nil
  · exact .taken #[]
  · exact fun i old => absurd old (Nat.not_lt_zero i)
  · exact .taken #[]
  · exact fun i old => absurd old (Nat.not_lt_zero i)
  · exact fun i => .none
  · exact .nil
  · rfl
  · exact .nil
  · exact .nil
  · rfl
  · simp [plain]
  · rfl
  · simp [plain]
  · rfl
  · simp [plain]
  · exact .nil
  · exact .nil
  · exact fun _ => rfl
  all_goals try rfl
  intro d mem
  rcases List.mem_append.mp mem with listed | begun
  · refine List.mem_append_left _ (List.mem_append_left _ ?_)
    simpa [plain] using listed
  · exact project d (Option.mem_toList.mp begun)

/-! ## The course of an analysis -/

section

variable (secluded : job.Secluded region contents)
include secluded

theorem past_top (there : job.files.canonical job.root = .ok top) : top.Past region :=
  ⟨_, canonical_eq there, proper_place secluded.named.1 _, secluded.root _ (job.files.place_mem_stops _)⟩

theorem around_top (there : job.files.canonical job.root = .ok top) : ¬job.files.place top <+: region := by
  rw [canonical_eq there, place_ofNames _ (proper_place secluded.named.1 _)]
  exact secluded.around

theorem past_sources (there : job.files.canonical job.root = .ok top) :
    ∀ p ∈ job.plain.sources top, p.Past region := by
  have past := secluded.past_top there
  unfold Session.sources
  split
  · simpa using past
  · intro p mem
    have listed : p ∈ job.files.walk top := (List.mem_filter.mp mem).1
    have avoids : job.files.Avoids region p := by
      obtain ⟨rest, some, home, below, rfl⟩ := mem_walk listed
      have outside := avoids_of_past past job.files
      refine avoids_below outside home some (fun name here =>
        secluded.named.2 _ below name (List.mem_append_right _ here)) ?_
      exact Apart.append ⟨outside _ (job.files.place_mem_stops top), secluded.around_top there⟩ rest
    obtain ⟨names, leads⟩ := follow_of_mem_walk secluded.named secluded.ordered secluded.accessible listed
    obtain ⟨tops, rfl, proper, -⟩ := past
    rw [← walk_settled secluded.named proper listed job.files]
    exact past_settle secluded.named.1 avoids leads

theorem sources_eq {folder top : Path} (stocked : Stocked region folder contents s'.files job.files)
    (alike : job.plain.options.Alike s'.options) (there : job.files.canonical job.root = .ok top) :
    s'.sources top = job.plain.sources top := by
  have agree := stocked.kept.agree
  have avoids := avoids_of_past (secluded.past_top there) s'.files
  have isSource : s'.isSource = job.plain.isSource := by
    have suffix : s'.options.suffix = job.plain.options.suffix := by rw [alike]
    have exclude : s'.options.exclude = job.plain.options.exclude := by rw [alike]
    unfold isSource
    rw [suffix, exclude]
  have isFile : s'.files.isFile top = job.plain.files.isFile top := agree.isFile avoids
  have walk : s'.files.walk top = job.plain.files.walk top := by
    refine stocked.level.walk agree avoids ?_
    rw [place_congr agree.working]
    exact secluded.around_top there
  unfold Session.sources
  rw [isFile, isSource, walk]

theorem opening_twin (stocked : Stocked region job.options.cacheDir contents files job.files)
    (there : job.files.canonical job.root = .ok top) (prewarm diskCache : Bool) :
    Twin secluded.pairing ⟨fun _ _ => False, 1⟩ (job.plain.opening top (job.plain.sources top))
      ((job.start prewarm diskCache files).opening top (job.plain.sources top)) := by
  have fresh := Paired.fresh stocked (job.tier_eq diskCache)
  have ready := stocked.fresh (job.tier_eq diskCache)
  have collected : ∀ p ∈ job.plain.sources top, p.Past region ∧
      ∀ source, job.files.read p = .ok source → (p.baseName, source) ∈ contents := by
    intro p mem
    have listed : p ∈ job.asked := by
      unfold asked Job.sources
      rw [there]
      exact List.mem_append_left _ mem
    exact ⟨secluded.past_sources there p mem, secluded.occurs p listed⟩
  have isFolder : (job.start prewarm diskCache files).files.isFolder top = job.files.isFolder top :=
    (ready.kept.agree.symm.isFolder (avoids_of_past (secluded.past_top there) job.files)).symm
  have project : ∀ d ∈ some (if job.files.isFolder top then top else top.parent?.getD top),
      d ∈ job.folders := by
    rintro _ ⟨⟩
    unfold Job.folders Job.project
    rw [there]
    simp
  unfold opening
  dsimp only
  rw [isFolder]
  cases prewarm with
  | false => exact secluded.twin rfl fresh project
  | true => exact secluded.twin rfl (fresh.prewarm secluded.legible collected) project

theorem ok_moments : ∀ m ∈ job.moments, secluded.pairing.ok m := by
  intro m passed
  refine ⟨fun e mem => ?_, fun ast held w spoken => ?_⟩
  · exact List.mem_append_right _ (List.mem_flatMap.mpr ⟨m, passed, List.mem_map_of_mem mem⟩)
  · exact List.mem_flatMap.mpr ⟨m, passed, List.mem_flatMap.mpr ⟨ast, Array.mem_toList_iff.mpr held, spoken⟩⟩

theorem seen_of_twin {st : Stage} (twin : Twin secluded.pairing st s s') (atTop : s.depth = 0)
    (ok : ∀ m ∈ through (tellDrain job.rounds { s with phase := .fixpoint }).2,
      secluded.pairing.ok m) : job.seen s' = job.seen s := by
  have shown {st : Stage} {t t' : Session} (alike : Twin secluded.pairing st t t') :
      (t'.view, t'.summary) = (t.view, t.summary) := by
    have names := alike.names_eq rfl fun _ => trivial
    rw [alike.summary_eq rfl, alike.view_eq fun ty ty' typed => ?_]
    rw [typed.eq, names]
    exact congrArg (Ty.display t.names) ty.shift_zero
  have ended := finish?_twin twin atTop job.rounds ok
  unfold seen
  rw [finish?_eq, finish?_eq] at ended ⊢
  generalize drain? job.rounds { s with phase := .fixpoint } = x,
    drain? job.rounds { s' with phase := .fixpoint } = y at ended
  cases x with
  | none =>
    cases y with
    | none => rfl
    | some t' => cases ended
  | some t =>
    cases y with
    | none => cases ended
    | some t' =>
      cases ended with
      | some alike =>
        obtain ⟨st', -, alike⟩ := alike
        exact congrArg some (shown alike)

theorem loaded_twin (stocked : Stocked region job.options.cacheDir contents files job.files)
    (there : job.files.canonical job.root = .ok top) (prewarm diskCache : Bool) :
    ∃ t st, job.plain.analyze job.root = .ok t ∧ t.depth = 0 ∧
      (∀ m ∈ through (tellDrain job.rounds { t with phase := .fixpoint }).2, secluded.pairing.ok m) ∧
      Twin secluded.pairing st t
        (((job.start prewarm diskCache files).opening top (job.plain.sources top)).loadAll
        (job.plain.sources top)) := by
  have passed : Passed job.plain := (reachable_empty job.plain.options job.files rfl secluded.content).passed
  have ready := passed_opening passed top (job.plain.sources top)
  have ok := secluded.ok_moments
  obtain ⟨t, events, told⟩ : ∃ t events, job.plain.tellAnalyze job.root = .ok (t, events) :=
    ⟨_, _, tellAnalyze_eq there⟩
  have moments : job.moments = through events ++
      through (tellDrain job.rounds { t with phase := .fixpoint }).2 := by
    unfold moments
    rw [told]
  rw [moments, List.forall_mem_append] at ok
  obtain ⟨top', there', rfl, rfl⟩ := tellAnalyze_told rfl told
  obtain rfl : top = top' := Except.ok.inj (there.symm.trans there')
  obtain ⟨st, -, loaded⟩ :=
    tellAll_twin (secluded.opening_twin stocked there prewarm diskCache) ready.idle.depth
    (secluded.past_sources there) ok.1
  have after := ready.advances (advances_loadAll _ (job.plain.sources top))
  exact ⟨_, st, analyze_eq there, after.idle.depth, ok.2, loaded⟩

end

theorem stocked_start (stocked : Stocked region job.options.cacheDir contents t job.files)
    (prewarm diskCache : Bool) :
    Stocked region job.options.cacheDir contents (job.start prewarm diskCache t).files job.files :=
      stocked.fresh (job.tier_eq diskCache)

section

variable (secluded : job.Secluded region contents)
    (stocked : Stocked region job.options.cacheDir contents t job.files)
include secluded stocked

theorem canonical_start (prewarm diskCache : Bool) :
    (job.start prewarm diskCache t).files.canonical job.root = job.files.canonical job.root := by
  have agree := (stocked_start stocked prewarm diskCache).kept.agree
  exact congrArg (Except.map Path.ofNames) (agree.symm.follow secluded.root).symm

theorem observed_eq (prewarm diskCache : Bool) :
    (job.under prewarm diskCache t).observed = (job.plain.analyze job.root).map job.seen := by
  have canonical := secluded.canonical_start stocked prewarm diskCache
  rw [observed_under secluded.content]
  cases there : job.files.canonical job.root with
  | error e =>
    unfold analyze
    rw [canonical, there, show job.plain.files.canonical job.root = .error e from there]
  | ok top =>
    obtain ⟨u, st, analyzed, atTop, ok, twin⟩ := secluded.loaded_twin stocked there prewarm diskCache
    rw [analyzed, analyze_eq (canonical.trans there),
      secluded.sources_eq (stocked_start stocked prewarm diskCache) rfl there]
    exact congrArg Except.ok (secluded.seen_of_twin twin atTop ok)

theorem stocked_again {prewarm diskCache : Bool} {summary : Summary}
    (analyzed : (job.start prewarm diskCache t).analyze job.root = .ok s)
    (ended : finish? job.rounds s = some (summary, s')) :
    Stocked region job.options.cacheDir contents s'.files job.files := by
  have canonical := secluded.canonical_start stocked prewarm diskCache
  cases there : job.files.canonical job.root with
  | error e =>
    unfold analyze at analyzed
    rw [canonical, there] at analyzed
    cases analyzed
  | ok top =>
    obtain ⟨u, st, -, atTop, ok, twin⟩ := secluded.loaded_twin stocked there prewarm diskCache
    rw [analyze_eq (canonical.trans there),
      secluded.sources_eq (stocked_start stocked prewarm diskCache) rfl there] at analyzed
    cases analyzed
    have alike := finish?_twin twin atTop job.rounds ok
    rw [ended] at alike
    generalize finish? job.rounds u = x at alike
    cases alike with
    | some after =>
      obtain ⟨st', -, after⟩ := after
      exact after.store.1.stocked

end

end Secluded

/-! ## An errand -/

/-- A file of a project requires one that is around the project, by a way through the folder around
the entries. There may be such a folder already. -/
def errand (existing : List (String × Entry)) : Job where
  options := { cacheDir := ⟨"/cache/ast"⟩ }
  files.root := .folder (("b.rb", .file (assigning "f" lambda).toUTF8) :: existing ++
    [("proj", .folder [("a.rb", .file (requiring "../cache/../b").toUTF8)])])
  root := ⟨"/proj"⟩
  rounds := 1

def errandContents : List (String × ByteArray) :=
  [("a.rb", (requiring "../cache/../b").toUTF8), ("b.rb", (assigning "f" lambda).toUTF8)]

def paved : Job := errand [("cache", .folder [])]

theorem stocked_paved : Stocked ["cache", "ast"] ⟨"/cache/ast"⟩ errandContents paved.files paved.files := by
  refine .empty List.prefix_rfl (by decide +kernel) ?_
  rintro _ bytes ⟨rest, rfl⟩ ⟨⟩

theorem secluded_paved : paved.Secluded ["cache", "ast"] errandContents := by
  obtain ⟨asked, folders, words⟩ : (∀ p ∈ paved.asked, p = ⟨"/proj/a.rb"⟩ ∨ p = ⟨"/b.rb"⟩) ∧
      (∀ d ∈ paved.folders, d = ⟨"/proj"⟩ ∨ d = ⟨"/"⟩) ∧ ∀ w ∈ paved.words,
      w = "../cache/../b" := by decide +kernel
  have foreign : Entry.Foreign (paved.plain.requiredPath "../cache/../b") :=
    ⟨"b.rb", by decide +kernel, by decide +kernel⟩
  refine ⟨rfl, by decide +kernel, ?_, by decide +kernel, by decide +kernel, by
    decide +kernel, ?_, ?_, stocked_paved.reserved, ?_,
    ⟨?_, by decide +kernel⟩⟩
  · refine Entry.ordered_folder (by decide +kernel) fun c mem => ?_
    simp only [List.cons_append, List.nil_append, List.mem_cons, List.not_mem_nil, or_false] at mem
    rcases mem with rfl | rfl | rfl
    · exact Entry.ordered_file _
    · exact Entry.ordered_emptyFolder
    · refine Entry.ordered_folder (List.pairwise_singleton _ _) fun c mem => ?_
      rw [List.mem_singleton.mp mem]
      exact Entry.ordered_file _
  · intro d mem
    rcases folders d mem with rfl | rfl <;> decide +kernel
  · intro w spoken d mem
    rw [words w spoken]
    refine ⟨?_, fun _ => foreign⟩
    rcases folders d mem with rfl | rfl <;> decide +kernel
  · intro p mem source held
    have first : paved.files.read ⟨"/proj/a.rb"⟩ = .ok (requiring "../cache/../b").toUTF8 := rfl
    have second : paved.files.read ⟨"/b.rb"⟩ = .ok (assigning "f" lambda).toUTF8 := rfl
    have base : (⟨"/proj/a.rb"⟩ : Path).baseName = "a.rb" ∧
        (⟨"/b.rb"⟩ : Path).baseName = "b.rb" := by decide +kernel
    rcases asked p mem with rfl | rfl
    · rw [first] at held
      cases held
      simp [base, errandContents]
    · rw [second] at held
      cases held
      simp [base, errandContents]
  · intro u left v right same _
    have names : (errandContents.map Prod.fst).Nodup := by decide
    rw [List.inj_on_of_nodup_map names left right same]

theorem exists_of_seen {view : View} {summary : Summary}
    (seen : (s.analyze job.root).map job.seen = .ok (some (view, summary))) :
    ∃ u v, s.analyze job.root = .ok u ∧ finish? job.rounds u = some (summary, v) := by
  cases analyzed : s.analyze job.root with
  | error e =>
    rw [analyzed] at seen
    cases seen
  | ok u =>
    rw [analyzed] at seen
    obtain ⟨⟨end_, v⟩, ended, shown⟩ := Option.map_eq_some_iff.mp (Except.ok.inj seen)
    cases shown
    exact ⟨u, v, rfl, ended⟩

theorem seen_paved : ∃ view summary, (paved.plain.analyze paved.root).map paved.seen =
    .ok (some (view, summary)) ∧ summary.filesLoaded = 2 := by
  have loaded : ((paved.plain.analyze paved.root).map paved.seen).toOption.join.map
      (fun e => e.2.filesLoaded) = some 2 := by decide +kernel
  generalize (paved.plain.analyze paved.root).map paved.seen = shown at loaded
  rcases shown with e | _ | ⟨view, summary⟩
  · cases loaded
  · cases loaded
  · exact ⟨view, summary, rfl, Option.some.inj loaded⟩

def unpaved : Job := errand []

theorem stocked_unpaved : Stocked ["cache"] ⟨"/cache/ast"⟩ errandContents unpaved.files unpaved.files := by
  refine .empty (by decide +kernel) (by decide +kernel) ?_
  rintro _ bytes ⟨rest, rfl⟩ ⟨⟩

theorem observed_unpaved :
    (unpaved.under true true unpaved.files).observed =
    (paved.under true true paved.files).observed := by
  have start : unpaved.start true true unpaved.files = paved.start true true paved.files := rfl
  rw [observed_under rfl, observed_under rfl, start]
  rfl

/-! ## Settings -/

/-- Whether trees are read ahead, whether entries are kept on disk, and which entries there are
already: an analysis shows the same, as long as the folder of the entries is out of its way. -/
theorem observed_settings (secluded : job.Secluded region contents) {files files' : FileTree}
    (stocked : Stocked region job.options.cacheDir contents files job.files)
    (stocked' : Stocked region job.options.cacheDir contents files' job.files)
    (prewarm diskCache prewarm' diskCache' : Bool) :
    (job.under prewarm diskCache files).observed = (job.under prewarm' diskCache' files').observed := by
  rw [secluded.observed_eq stocked, secluded.observed_eq stocked']

/-- Two files are loaded with and without entries, and again with the entries that this leaves. -/
theorem observed_settings_paved :
    ∃ s e, (paved.start true true paved.files).analyze paved.root = .ok s ∧
      finish? paved.rounds s = some e ∧ e.1.filesLoaded = 2 ∧
      (paved.under true true paved.files).observed = (paved.under false false paved.files).observed ∧
      (paved.under false true e.2.files).observed = (paved.under false false paved.files).observed := by
  obtain ⟨view, summary, seen, loaded⟩ := seen_paved
  rw [← secluded_paved.observed_eq stocked_paved true true, observed_under rfl] at seen
  obtain ⟨s, t, analyzed, ended⟩ := exists_of_seen seen
  have stocked := secluded_paved.stocked_again stocked_paved analyzed ended
  refine ⟨s, (summary, t), analyzed, ended, loaded, ?_, ?_⟩
  · exact observed_settings secluded_paved stocked_paved stocked_paved true true false false
  · exact observed_settings secluded_paved stocked stocked_paved false true false false

/-- A word that leads through the folder around the entries finds a file once that folder is made
for them. -/
theorem observed_settings_unpaved :
    Stocked ["cache"] unpaved.options.cacheDir errandContents unpaved.files unpaved.files ∧
      Legible errandContents ∧
      unpaved.files.Avoids ["cache"] unpaved.root ∧
      ¬unpaved.files.place unpaved.root <+: ["cache"] ∧ unpaved.options.loadPath = [] ∧
      (unpaved.under true true unpaved.files).observed ≠
        (unpaved.under true false unpaved.files).observed := by
  refine ⟨stocked_unpaved, secluded_paved.legible, by decide +kernel, by decide +kernel, rfl, ?_⟩
  rw [observed_unpaved, secluded_paved.observed_eq stocked_paved]
  decide +kernel

end Job

end RubyInfer
