import RubyInfer.Proofs.FileTree.Names
import RubyInfer.Proofs.Session.Idempotence
import RubyInfer.Proofs.Session.Overrun

/-!
# Files that require each other

A file that is being loaded is passed over where it is required again, and a file that is loaded is
not loaded again. So the root of every file is visited once, however the files require each other
and whichever is entered first, as long as every file can be parsed, none is loaded by force and no
limit is exceeded (`circular_requires`).
-/

namespace RubyInfer

def Session.isRoot (s : Session) (file : Path) (node : NodeRef) : Bool :=
  node.id = (s.tree node).root && node.file.same file

def Event.visitsRoot (file : Path) : Event → Bool
  | visit node _ m => m.isRoot file node
  | change _ _ => false

/-- A visit is not refused and loads no file by force. -/
def Event.Calm : Event → Prop
  | visit node scope m => m.depth < m.options.maxDepth ∧ ¬m.Forces node scope
  | change _ _ => True

instance : DecidablePred Event.Calm
  | .visit _ _ _ => instDecidableAnd
  | .change _ _ => instDecidableTrue

namespace Cache

variable {c : Cache} {file : Path} {files : FileTree} {ask : Path → Prop}

/-! ## Trees and their files -/

theorem file_of_entry {hash : UInt64} {a : Ast} {files' : FileTree}
    (entry : c.loadFromDisk file hash files = (some a, files')) :
    a.file = file := by
  unfold loadFromDisk at entry
  split at entry
  · unfold loadEntry at entry
    dsimp only at entry
    split at entry
    · cases entry
    · split at entry <;> cases entry
      rfl
  · cases entry

theorem get_outcome (c : Cache) (file : Path) (files : FileTree) :
    (∃ id, c.memory.get? file = some id ∧
      c.get file files = (id, { c with memoryHits := c.memoryHits + 1 }, files)) ∨
      c.memory.get? file = none ∧ ∃ diskHits parses files',
        c.get file files = (none, { c with diskHits, parses }.remember file none, files') ∨
          ∃ a : Ast, a.file = file ∧
            c.get file files = (some c.trees.size, ({ c with diskHits, parses }.addTree file a).2,
              files') := by
  unfold get
  split
  · rename_i id known
    exact .inl ⟨id, known, rfl⟩
  · rename_i new
    refine .inr ⟨new, ?_⟩
    split
    · exact ⟨c.diskHits, c.parses, files, .inl rfl⟩
    · split
      · rename_i a files' entry
        exact ⟨c.diskHits + 1, c.parses, files', .inr ⟨a, file_of_entry entry, rfl⟩⟩
      · rename_i files' _
        unfold parse
        dsimp only
        split
        · exact ⟨c.diskHits, c.parses + 1, _, .inl rfl⟩
        · rename_i a _ parsed
          exact ⟨c.diskHits, c.parses + 1, _,
            .inr ⟨a, (Dumper.wellFormed_of_parse (congrArg Prod.fst parsed)).2, rfl⟩⟩

def Homed (c : Cache) : Prop := ∀ p n, c.memory.get? p = some (some n) → ∃ a, c.trees[n]? = some a ∧
    a.file.same p = true

theorem Homed.get (homed : c.Homed) : (c.get file files).2.1.Homed := by
  obtain ⟨id, -, got⟩ | ⟨-, diskHits, parses, files', got | ⟨a, named, got⟩⟩ := c.get_outcome file files
  · rw [got]
    exact homed
  · rw [got]
    intro p n known
    have known : (c.memory.insert file none).get? p = some (some n) := known
    rw [PathMap.get?_insert] at known
    split at known
    · cases known
    · exact homed p n known
  · rw [got]
    intro p n known
    have known : (c.memory.insert file (some c.trees.size)).get? p = some (some n) := known
    show ∃ b, (c.trees.push a)[n]? = some b ∧ _
    rw [PathMap.get?_insert] at known
    split at known
    · rename_i same
      cases known
      exact ⟨a, Array.getElem?_push_size, named ▸ same⟩
    · obtain ⟨b, there, home⟩ := homed p n known
      obtain ⟨inside, here⟩ := Array.getElem?_eq_some_iff.mp there
      exact ⟨b, (Array.getElem?_push_lt inside).trans (congrArg some here), home⟩

theorem Asking.homed {v w : Cache × FileTree} (asking : Asking ask v w) (homed : v.1.Homed) : w.1.Homed := by
  induction asking with
  | refl => exact homed
  | get _ _ _ ih => exact ih.get
  | clear => exact fun p n known => by cases known

/-- Whatever of certain files has been read, each of them has a tree within a limit, and no root is
part of another node. -/
structure Complete (wanted : Path → Prop) (limit : Nat) (base : Cache × FileTree) : Prop where
  parses {w : Cache × FileTree} {file : Path} : Asking wanted base w → wanted file →
    ∃ tree, (w.1.get file w.2).1 = some tree ∧ ((w.1.get file w.2).2.1.trees[tree]?.getD default).size ≤ limit
  rooted {w : Cache × FileTree} : Asking wanted base w → ∀ a ∈ w.1.trees, ∀ id, a.root ∉ (a.kind id).parts

structure Fitting (limit : Nat) (files : FileTree) (w : Cache × FileTree) : Prop where
  content : w.1.dumper = .content
  dumped : w.1.Dumped
  files : w.2 = files
  held {p : Path} {id : Option Nat} : w.1.memory.get? p = some id → ∃ n a, id = some n ∧
      w.1.trees[n]? = some a ∧ a.size ≤ limit

theorem Fitting.get {limit : Nat} {w : Cache × FileTree} (fitting : Fitting limit files w)
    (parses : ∃ a, (Dumper.content.parse files file).1 = some a ∧ a.size ≤ limit) :
    Fitting limit files (w.1.get file w.2).2 ∧
      ∃ tree, (w.1.get file w.2).1 = some tree ∧
      ((w.1.get file w.2).2.1.trees[tree]?.getD default).size ≤ limit := by
  obtain ⟨c, files'⟩ := w
  obtain ⟨content, dumped, rfl, held⟩ := fitting
  obtain ⟨a, parsed, fits⟩ := parses
  have kept := get_of_content content dumped.disk file files'
  obtain ⟨id, known, got⟩ | ⟨-, ⟨failed, -⟩ | ⟨b, made, got⟩⟩ := get_cases content dumped.disk file files'
  · obtain ⟨n, b, rfl, there, small⟩ := held known
    rw [got]
    refine ⟨⟨content, ⟨dumped.disk, dumped.trees⟩, rfl, held⟩, n, rfl, ?_⟩
    simpa [there] using small
  · rw [show c.dumper = _ from content, parsed] at failed
    cases failed
  · rw [show c.dumper = _ from content, parsed] at made
    cases made
    refine ⟨⟨kept.1, dumped.get, kept.2, fun {p id} known => ?_⟩, c.trees.size, congrArg Prod.fst got, ?_⟩
    · rw [got] at known ⊢
      have known : (c.memory.insert file (some c.trees.size)).get? p = some id := known
      show ∃ n b, id = some n ∧ (c.trees.push a)[n]? = some b ∧ _
      rw [PathMap.get?_insert] at known
      split at known
      · cases known
        exact ⟨_, a, rfl, Array.getElem?_push_size, fits⟩
      · obtain ⟨n, b, rfl, there, small⟩ := held known
        obtain ⟨inside, here⟩ := Array.getElem?_eq_some_iff.mp there
        exact ⟨n, b, rfl, (Array.getElem?_push_lt inside).trans (congrArg some here), small⟩
    · rw [got]
      show ((c.trees.push a)[c.trees.size]?.getD default).size ≤ limit
      rw [Array.getElem?_push_size]
      exact fits

theorem complete_of_dumps {wanted : Path → Prop} {limit : Nat} (content : c.dumper = .content)
    (dumped : c.Dumped) (empty : c.memory.entries = [])
    (parses : ∀ p, wanted p → ∃ a, (Dumper.content.parse files p).1 = some a ∧ a.size ≤ limit) :
    Complete wanted limit (c, files) := by
  have fitting {w : Cache × FileTree} (asking : Asking wanted (c, files) w) : Fitting limit files w := by
    induction asking with
    | refl => exact ⟨content, dumped, rfl, fun known => by simp [PathMap.get?, empty] at known⟩
    | get _ p asked ih => exact (ih.get (parses p asked)).1
    | clear _ ih =>
      exact ⟨ih.content, ⟨ih.dumped.disk, ih.dumped.trees⟩, ih.files, fun known => by cases known⟩
  refine ⟨fun asking mem => ((fitting asking).get (parses _ mem)).2, fun asking a mem => ?_⟩
  exact ((fitting asking).dumped.trees a mem).root_notMem_parts

end Cache

namespace Session

variable {wanted : Path → Prop} {limit : Nat} {base : Cache × FileTree} {o : Option NodeRef}
    {s t u : Session} {events : List Event}
  {file : Path}

/-! ## What is read -/

def Only (wanted : Path → Prop) (s : Session) : Prop := ∀ e ∈ s.cache.memory.entries, wanted e.1

theorem get_wanted (before : Only wanted s) (after : Only wanted (s.fetch file).2) :
    ∃ q, wanted q ∧ s.cache.get file s.files = s.cache.get q s.files := by
  obtain ⟨id, known, got⟩ | ⟨new, diskHits, parses, files', outcome⟩ := s.cache.get_outcome file s.files
  · obtain ⟨e, mem, same⟩ := PathMap.exists_mem_of_get? known
    refine ⟨e.1, before e mem, ?_⟩
    rw [got]
    unfold Cache.get
    rw [← PathMap.get?_congr same, known]
  · refine ⟨file, ?_, rfl⟩
    have held : ∃ v, (file, v) ∈ (s.cache.get file s.files).2.1.memory.entries := by
      rcases outcome with got | ⟨a, -, got⟩ <;> rw [got] <;> exact ⟨_, PathMap.mem_entries_insert new _⟩
    obtain ⟨v, mem⟩ := held
    exact after _ mem

theorem fetch_wanted (complete : Cache.Complete wanted limit base)
    (asking : Cache.Asking wanted base (s.cache, s.files))
    (only : ∀ m ∈ through (.change s (s.fetch file).2 :: events), Only wanted m) :
    Cache.Asking wanted base ((s.fetch file).2.cache, (s.fetch file).2.files) ∧
      ∃ tree, (s.fetch file).1 = some tree ∧
      ((s.fetch file).2.cache.trees[tree]?.getD default).size ≤ limit := by
  obtain ⟨q, mem, same⟩ := get_wanted (only s (by simp [Event.sessions]))
    (only (s.fetch file).2 (by simp [Event.sessions]))
  have read := asking.get q mem
  have parses := complete.parses asking mem
  rw [← same] at read parses
  exact ⟨read, parses⟩

/-! ## Each root once -/

def atRoot (file : Path) (s : Session) : Option NodeRef → Nat
  | none => 0
  | some node => if s.isRoot file node then 1 else 0

theorem Part.not_root (rooted : ∀ a ∈ s.cache.trees, ∀ id, a.root ∉ (a.kind id).parts)
    {node : NodeRef} (part : s.Part node) :
    node.id ≠ (s.tree node).root := by
  obtain ⟨parent, mem⟩ := part
  have mem : node.id ∈ ((s.tree node).kind parent).parts := mem
  intro same
  rw [same] at mem
  unfold tree at mem
  cases held : s.cache.trees[node.tree]? with
  | none =>
    rw [held] at mem
    cases mem
  | some a =>
    rw [held] at mem
    exact rooted a (Array.mem_of_getElem? held) parent mem

theorem atRoot_rootOf {tree : Nat} {ast : Ast}
    (held : (s.fetch file).2.cache.trees[tree]? = some ast) (home : ast.file.same file = true)
    (other : Path) :
    atRoot other ((s.found file).openFile file) (some ((s.found file).rootOf tree)) =
      if other.same file then 1 else 0 := by
  have same : ast.file.same other = other.same file := Path.same_comm.trans (Path.same_congr home)
  have found : (s.found file).cache.trees[tree]? = some ast := held
  have opened : ((s.found file).openFile file).cache.trees[tree]? = some ast := held
  simp [atRoot, isRoot, rootOf, Session.tree, found, opened, same]

/-- Nothing fails, nothing is given up, and the root of a file is visited as often as the file comes
to count as loaded. -/
structure Once (wanted : Path → Prop) (base : Cache × FileTree) (o : Option NodeRef) (s : Session)
    (events : List Event) (t : Session) :
    Prop where
  asking : Cache.Asking wanted base (t.cache, t.files)
  going : t.exhausted = false
  failed : t.failed.paths.Sublist s.failed.paths
  single : (∀ file, s.loaded.count file ≤ 1) → ∀ file, t.loaded.count file ≤ 1
  roots (file : Path) : events.countP (Event.visitsRoot file) + s.loaded.count file =
      t.loaded.count file + atRoot file s o

theorem Once.append {second : List Event} (before : Once wanted base none s events t)
    (after : Once wanted base none t second u) :
    Once wanted base none s (events ++ second) u := by
  refine ⟨after.asking, after.going, after.failed.trans before.failed, fun single =>
    after.single (before.single single), fun file => ?_⟩
  have earlier := before.roots file
  have later := after.roots file
  rw [List.countP_append]
  simp only [atRoot] at earlier later ⊢
  omega

theorem Once.loaded (once : Once wanted base none s events t)
    (there : s.loaded.contains file = true) : t.loaded.contains file = true := by
  rw [PathSet.contains_iff_count] at there ⊢
  exact Nat.lt_of_lt_of_le there (Nat.le_trans (Nat.le_add_left ..) (Nat.le_of_eq (once.roots file)))

theorem Once.load {tree : Nat} {ast : Ast}
    (once : Once wanted base (some ((s.found file).rootOf tree)) ((s.found file).openFile file) events t)
    (unsettled : t.loaded.count file = s.loaded.count file) (new : s.loaded.contains file = false)
    (held : (s.fetch file).2.cache.trees[tree]? = some ast) (home : ast.file.same file = true) :
    Once wanted base none s
      ([.change s (s.fetch file).2, .change (s.fetch file).2 (s.found file),
        .change (s.found file) ((s.found file).openFile file)] ++
        events ++ [.change t (t.closeFile s.cwd file),
        .change (t.closeFile s.cwd file) ((t.closeFile s.cwd file).fileEnded s.depth file)])
      ((t.closeFile s.cwd file).fileEnded s.depth file) := by
  have ended : (t.closeFile s.cwd file).fileEnded s.depth file =
      { t.closeFile s.cwd file with loaded := t.loaded.insert file } :=
        if_neg (Bool.eq_false_iff.mp once.going)
  rw [ended]
  refine ⟨once.asking, once.going, once.failed.trans List.filter_sublist,
    fun single => PathSet.count_insert_le (once.single single) file, fun other => ?_⟩
  have waiting : t.loaded.contains file = false := by
    rw [Bool.eq_false_iff, Ne, PathSet.contains_iff_count, unsettled, PathSet.count_of_absent new]
    exact Nat.lt_irrefl 0
  have roots : events.countP (Event.visitsRoot other) + s.loaded.count other =
      t.loaded.count other + _ := once.roots other
  show _ + _ = (t.loaded.insert file).count other + 0
  rw [PathSet.count_insert_new waiting, ← atRoot_rootOf held home other, Nat.add_zero, ← roots]
  simp [Event.visitsRoot, List.countP_append]

theorem Course.once {p : Prop} (complete : Cache.Complete wanted limit base) (homed : base.1.Homed)
    (course : Course p o s events t) (unforced : ¬p) (within : s.options.maxNodes = limit)
    (asking : Cache.Asking wanted base (s.cache, s.files))
    (going : s.exhausted = false) (only : ∀ m ∈ through events, Only wanted m)
    (calm : ∀ e ∈ events, e.Calm) : Once wanted base o s events t := by
  induction course with
  | nil s => exact ⟨asking, going, List.Sublist.refl _, id, fun _ => by simp [atRoot]⟩
  | append before after first second =>
    rw [through_append, List.forall_mem_append] at only
    rw [List.forall_mem_append] at calm
    have earlier := first unforced within asking going only.1 calm.1
    have later := second unforced (before.steady.options ▸ within) earlier.asking earlier.going only.2 calm.2
    exact earlier.append later
  | quiet quiet =>
    refine ⟨?_, quiet.exhausted.trans going, quiet.failed ▸ List.Sublist.refl _, fun single =>
      quiet.loaded ▸ single, fun file => ?_⟩
    · rw [quiet.cache, quiet.files]
      exact asking
    · rw [quiet.loaded]
      simp [Event.visitsRoot, atRoot]
  | @part _ s t node events part visit ih =>
    have once := ih not_false within asking going only calm
    refine { once with roots := fun file => ?_ }
    have inner : s.isRoot file node = false := by
      simp [isRoot, part.not_root (complete.rooted asking)]
    have roots := once.roots file
    simpa [atRoot, inner] using roots
  | refused node scope spent =>
    exact absurd (calm _ List.mem_cons_self).1 (Nat.not_lt.mpr spent)
  | passed node scope spent =>
    rw [spent] at going
    cases going
  | @inside s t events node scope room _ inner ih =>
    simp only [through_append, List.forall_mem_append] at only calm
    obtain ⟨-, unforced⟩ := calm.1.1 _ List.mem_cons_self
    have once := ih unforced within asking going only.1.2 calm.1.2
    refine { once with roots := fun file => ?_ }
    have roots := once.roots file
    have counted : ([Event.visit node scope s, Event.change s { s with depth := s.depth + 1 }] ++ events ++
        [Event.change t { t with depth := t.depth - 1 }]).countP (Event.visitsRoot file) =
          events.countP (Event.visitsRoot file) + atRoot file s (some node) := by
      simp [Event.visitsRoot, atRoot, List.countP_append, List.countP_cons]
      rfl
    rw [counted]
    simp only [atRoot] at roots ⊢
    omega
  | @unread _ s file _ absent =>
    obtain ⟨-, tree, found, -⟩ := fetch_wanted complete asking only
    exact absurd (found.symm.trans absent) (Option.some_ne_none tree)
  | @oversized _ s file tree present large =>
    obtain ⟨-, tree', found, fits⟩ := fetch_wanted complete asking only
    cases found.symm.trans present
    exact absurd large (Nat.not_lt.mpr (within ▸ fits))
  | @load _ s t file tree events fresh again present fits root ih =>
    obtain ⟨read, -⟩ := fetch_wanted complete asking only
    have new := again.resolve_left unforced
    obtain ⟨ast, held, home⟩ : ∃ a, (s.fetch file).2.cache.trees[tree]? = some a ∧
        a.file.same file = true := by
      exact read.homed homed file tree (Analysis.get?_memory_fetch present)
    simp only [through_append, List.forall_mem_append] at only calm
    have once := ih not_false within read going only.1.2 calm.1.2
    exact once.load (root.loaded_of_open (contains_openFile _ file)) new held home
  | @call _ s t key events result there fresh bounded body ih =>
    simp only [through_append, List.forall_mem_append] at only calm
    have once := ih unforced within asking going only.1.2 calm.1.2
    refine { once with roots := fun file => ?_ }
    have roots : events.countP (Event.visitsRoot file) + s.loaded.count file =
        t.loaded.count file := once.roots file
    show _ + _ = t.loaded.count file
    simpa [Event.visitsRoot, List.countP_append] using roots

theorem Course.head {node : NodeRef} (course : Course False (some node) s events t) :
    ∃ scope rest, events = .visit node scope s :: rest := by
  cases course <;> exact ⟨_, _, rfl⟩

theorem inferTop_hears (atTop : s.depth = 0) :
    Analysis.Hears Analysis.inferTop (Analysis.tell s.options.maxDepth) s := by
  intro t node scope later
  have left : s.options.maxDepth = t.options.maxDepth - t.depth := by
    rw [later.options, later.depth, atTop, Nat.sub_zero]
  rw [← later.options] at left ⊢
  obtain ⟨events, told, course, blind⟩ :=
    Analysis.tell_hears t.options.maxDepth left t node scope (Steady.refl t).later
  exact ⟨events, told, course,
    Analysis.Blind.get (g := fun _ => Analysis.tell t.options.maxDepth node scope) blind
    fun _ _ _ => rfl⟩

end Session

namespace Analysis

open Session

variable {wanted : Path → Prop} {limit : Nat} {base : Cache × FileTree} {s t : Session} {events : List Event}

def tellAll : List Path → Told Unit
  | [] => pure ()
  | file :: files => do
    let s ← get
    if s.loaded.contains file then tellAll files
    else
      let _ ← load (tell s.options.maxDepth) file false
      tellAll files

theorem tellAll_cons {file : Path} {files : List Path} (new : s.loaded.contains file = false)
    {result : Option Ty} {u : Session}
    {earlier later : List Event} (first : load (tell s.options.maxDepth) file false s = (result, u, earlier))
    (rest : tellAll files u = (⟨⟩, t, later)) : tellAll (file :: files) s = (⟨⟩, t, earlier ++ later) := by
  refine Told.run_get ?_
  rw [new, if_neg Bool.false_ne_true]
  exact Told.run_bind first rest

theorem tellAll_course (files : List Path) (atTop : s.depth = 0) :
    ∃ t events, tellAll files s = (⟨⟩, t, events) ∧ s.loadAll files = t ∧ Course False none s events t := by
  induction files generalizing s with
  | nil => exact ⟨s, [], rfl, rfl, .nil s⟩
  | cons file files ih =>
    cases new : s.loaded.contains file with
    | true =>
      obtain ⟨t, events, told, ran, course⟩ := ih atTop
      refine ⟨t, events, Told.run_get ?_, ?_, course⟩
      · rw [new, if_pos rfl]
        exact told
      · rw [← ran]
        exact congrArg (Session.loadAll · files) (if_pos new)
    | false =>
      obtain ⟨result, u, earlier, ran, told, course⟩ :=
        (load_tells (p := False) (inferTop_hears atTop) file false nofun).split
      obtain ⟨t, later, toldOn, ranOn, courseOn⟩ := ih (course.steady.depth.trans atTop)
      refine ⟨t, earlier ++ later, tellAll_cons new told toldOn, ?_, .append course courseOn⟩
      have loaded : (if s.loaded.contains file then s else (s.loadFile file).2) = u := by
        rw [new, if_neg Bool.false_ne_true]
        exact congrArg Prod.snd ran
      rw [← ranOn, ← loaded]
      rfl

theorem load_once (complete : Cache.Complete wanted limit base) (homed : base.1.Homed)
    (within : s.options.maxNodes = limit)
    (asking : Cache.Asking wanted base (s.cache, s.files)) (going : s.exhausted = false) (atTop : s.depth = 0)
    (free : s.importStack.paths = []) {file : Path} (mem : wanted file) (settled : s.files.settle file = file)
    (new : s.loaded.contains file = false) {result : Option Ty}
    (told : load (tell s.options.maxDepth) file false s = (result, t, events))
    (only : ∀ m ∈ through events, Only wanted m)
    (calm : ∀ e ∈ events, e.Calm) : Once wanted base none s events t ∧ t.loaded.contains file = true := by
  obtain ⟨tree, present, fits⟩ := complete.parses asking mem
  have outside : s.importStack.contains file = false := by rw [PathSet.contains, free]; rfl
  obtain ⟨ty, u, inside, root, -, same⟩ :=
    load_opened (inferTop_hears atTop) settled outside (.inr new) present (within ▸ fits)
  have equal := told.symm.trans same
  simp only [Prod.mk.injEq] at equal
  obtain ⟨rfl, rfl, rfl⟩ := equal
  have course := Course.load (p := False) outside (.inr new) present (within ▸ fits) root
  have once := course.once complete homed not_false within asking going only calm
  refine ⟨once, PathSet.contains_iff_count.mpr ?_⟩
  -- Its root has been visited, so it has come to count as loaded.
  obtain ⟨ast, held, home⟩ := (asking.get file mem).homed homed file tree (get?_memory_fetch present)
  have first : atRoot file _ _ = 1 := (atRoot_rootOf held home file).trans (if_pos (Path.same_refl file))
  obtain ⟨scope, rest, rfl⟩ := root.head
  have visited : (Event.visit ((s.found file).rootOf tree) scope
      ((s.found file).openFile file)).visitsRoot file = true := by
    simpa [atRoot, Event.visitsRoot] using first
  refine Nat.lt_of_lt_of_le (List.countP_pos_iff.mpr ⟨_, ?_, visited⟩)
    (Nat.le_trans (Nat.le_add_right ..) (Nat.le_of_eq (once.roots file)))
  simp

theorem tellAll_once (complete : Cache.Complete wanted limit base) (homed : base.1.Homed) {files : List Path}
    (collected : ∀ file ∈ files, wanted file ∧ ∀ w, Cache.Asking wanted base w → w.2.settle file = file)
    (within : s.options.maxNodes = limit) (asking : Cache.Asking wanted base (s.cache, s.files))
    (going : s.exhausted = false)
    (atTop : s.depth = 0) (free : s.importStack.paths = []) (told : tellAll files s = (⟨⟩, t, events))
    (only : ∀ m ∈ through events, Only wanted m) (calm : ∀ e ∈ events, e.Calm) :
    Once wanted base none s events t ∧ ∀ file ∈ files, t.loaded.contains file = true := by
  induction files generalizing s events with
  | nil =>
    cases told
    exact ⟨(Course.nil _).once complete homed not_false within asking going only calm, nofun⟩
  | cons file files ih =>
    obtain ⟨⟨mem, settled⟩, others⟩ := List.forall_mem_cons.mp collected
    cases new : s.loaded.contains file with
    | true =>
      have skipped : tellAll (file :: files) s = tellAll files s := by
        show (if s.loaded.contains file then tellAll files else _) s = _
        rw [new, if_pos rfl]
      obtain ⟨once, loaded⟩ := ih others within asking going atTop free (skipped ▸ told) only calm
      exact ⟨once, List.forall_mem_cons.mpr ⟨once.loaded new, loaded⟩⟩
    | false =>
      obtain ⟨result, u, earlier, -, first, before⟩ :=
        (load_tells (p := False) (inferTop_hears atTop) file false nofun).split
      have steady := before.steady
      obtain ⟨t', later, rest, -, after⟩ := tellAll_course files (steady.depth.trans atTop)
      have whole := (tellAll_cons new first rest).symm.trans told
      simp only [Prod.mk.injEq, true_and] at whole
      obtain ⟨rfl, rfl⟩ := whole
      rw [through_append, List.forall_mem_append] at only
      rw [List.forall_mem_append] at calm
      obtain ⟨once, loaded⟩ := load_once complete homed within asking going atTop free mem
        (settled _ asking) new first only.1 calm.1
      obtain ⟨onceOn, loadedOn⟩ := ih others (steady.options ▸ within) once.asking once.going
        (steady.depth.trans atTop) (steady.importStack ▸ free) rest only.2 calm.2
      exact ⟨once.append onceOn, List.forall_mem_cons.mpr ⟨onceOn.loaded loaded, loadedOn⟩⟩

end Analysis

namespace Session

variable {wanted : Path → Prop} {s t : Session} {events : List Event}

def opening (s : Session) (top : Path) (files : List Path) : Session :=
  let s := { s with
    phase := .loading,
    projectDir := some (if s.files.isFolder top then top else top.parent?.getD top) }
  if s.options.prewarm then s.prewarm files else s

def tellAnalyze (s : Session) (root : Path) : Except AnalysisError (Session × List Event) :=
  match s.files.canonical root with
  | .error e => .error (.configuration root e.message)
  | .ok top => .ok (Analysis.tellAll (s.sources top) (s.opening top (s.sources top))).2

theorem tellAnalyze_eq {root top : Path} (there : s.files.canonical root = .ok top) :
    s.tellAnalyze root = .ok (Analysis.tellAll (s.sources top) (s.opening top (s.sources top))).2 := by
  unfold tellAnalyze
  rw [there]

theorem analyze_eq {root top : Path} (there : s.files.canonical root = .ok top) :
    s.analyze root = .ok ((s.opening top (s.sources top)).loadAll (s.sources top)) := by
  unfold analyze
  rw [there]
  rfl

theorem opening_eq (s : Session) (top : Path) (files : List Path) :
    ∃ cache files' projectDir,
    s.opening top files = { s with cache, files := files', phase := .loading, projectDir } := by
  unfold opening
  dsimp only
  split <;> exact ⟨_, _, _, rfl⟩

theorem asking_opening {top : Path} {files : List Path} (asked : ∀ file ∈ files, wanted file) :
    Cache.Asking wanted (s.cache, s.files) ((s.opening top files).cache, (s.opening top files).files) := by
  unfold opening
  dsimp only
  split
  · exact (Cache.Asking.refl _).prewarm asked
  · exact .refl _

theorem settle_source {root top file : Path} (named : s.files.Named)
    (there : s.files.canonical root = .ok top)
    (mem : file ∈ s.sources top) (files : FileTree) : files.settle file = file := by
  obtain ⟨names, rfl, proper⟩ := FileTree.ofNames_of_canonical named.1 there
  unfold sources at mem
  split at mem
  · rw [List.mem_singleton.mp mem]
    exact FileTree.settle_ofNames files proper
  · exact FileTree.walk_settled named proper (List.mem_filter.mp mem).1 files

/-- **Files may require each other.** Let each file that is read in the analysis of a project be one
that can be parsed, whatever was read before, and let neither the nodes nor the depth exceed their
limits. If no visit loads a file by force, then every source file counts as loaded, once, no file
has failed, and the root of each file that is loaded has been visited once, whichever file was
entered first and whatever circles there are. -/
theorem circular_requires {options : Options} {files : FileTree}
    (fresh : Session.new options files = .ok s) (named : s.files.Named)
    {root top : Path} (there : s.files.canonical root = .ok top)
    (complete : Cache.Complete wanted s.options.maxNodes (s.cache, s.files))
    (collected : ∀ file ∈ s.sources top, wanted file)
    (told : s.tellAnalyze root = .ok (t, events)) (only : ∀ m ∈ through events, m.Only wanted)
    (shallow : ∀ node scope m, .visit node scope m ∈ events → m.depth < m.options.maxDepth)
    (unforced : ∀ node scope m, .visit node scope m ∈ events → ¬m.Forces node scope) :
    s.analyze root = .ok t ∧ t.failed.paths = [] ∧ (∀ file ∈ s.sources top, t.loaded.count file = 1) ∧
      ∀ file, t.loaded.contains file = true → events.countP (Event.visitsRoot file) = 1 := by
  have homed : s.cache.Homed := by
    rw [cache_new fresh]
    exact fun p n known => nomatch known
  have asking : Cache.Asking wanted (s.cache, s.files) ((s.opening top (s.sources top)).cache,
      (s.opening top (s.sources top)).files) :=
    asking_opening collected
  have idle := new_idle fresh
  have unloaded : s.loaded.paths = [] := congrArg (·.loaded.paths) (new_eq fresh)
  have unfailed : s.failed.paths = [] := congrArg (·.failed.paths) (new_eq fresh)
  obtain ⟨cache, files', projectDir, begun⟩ := s.opening_eq top (s.sources top)
  rw [tellAnalyze_eq there] at told
  rw [analyze_eq there]
  generalize s.opening top (s.sources top) = b at begun asking told ⊢
  obtain ⟨t', events', toldAll, ran, -⟩ :=
    Analysis.tellAll_course (s := b) (s.sources top) (by rw [begun]; exact idle.depth)
  rw [toldAll] at told
  cases told
  have calm : ∀ e ∈ events, e.Calm := by
    rintro (⟨node, scope, m⟩ | _) mem
    · exact ⟨shallow node scope m mem, unforced node scope m mem⟩
    · trivial
  have settled : ∀ file ∈ s.sources top, wanted file ∧
      ∀ w, Cache.Asking wanted (s.cache, s.files) w → w.2.settle file = file :=
    fun file mem => ⟨collected file mem, fun w _ => settle_source named there mem w.2⟩
  obtain ⟨once, loaded⟩ := Analysis.tellAll_once complete homed settled (by rw [begun]) asking
    (by rw [begun]; exact idle.exhausted)
    (by rw [begun]; exact idle.depth) (by rw [begun]; exact idle.importStack) toldAll only calm
  have none (file : Path) : b.loaded.count file = 0 := by
    rw [begun, PathSet.count, unloaded]
    rfl
  have single (file : Path) (there : t.loaded.contains file = true) : t.loaded.count file = 1 := by
    have most := once.single (fun file => (none file).symm ▸ Nat.zero_le 1) file
    have least := PathSet.contains_iff_count.mp there
    omega
  refine ⟨congrArg Except.ok ran, ?_, fun file mem => single file (loaded file mem), fun file counted => ?_⟩
  · have fewer := once.failed
    rw [begun, unfailed] at fewer
    exact List.sublist_nil.mp fewer
  · have roots := once.roots file
    rwa [none, single file counted] at roots

def dotted (value name : String) : String :=
  "\x7b\"type\":\"attribute\",\"value\":" ++ value ++ ",\"attr\":" ++ naming name ++ "\x7d"

/-- The program asks another module to load something, loads a file that is not there, and then has
a `load` of its own. -/
def speaking : String :=
  statements [requiring "c", callingWith (dotted (naming "YAML") "load") "a", callingWith (naming "load") "d",
    defining "load" (naming "x") (requiring "a"),
    callingWith (naming "load") "b"]

def circle : Session := project [("a.rb", requiring "b"), ("b.rb", requiring "a"), ("c.rb", speaking)]

def circleFiles : List Path := [⟨"/a.rb"⟩, ⟨"/b.rb"⟩, ⟨"/c.rb"⟩]

def circleTold : Session × List Event := (Analysis.tellAll circleFiles (circle.opening ⟨"/"⟩ circleFiles)).2

theorem circular_requires_circle :
    circle.analyze ⟨"/"⟩ = .ok circleTold.1 ∧ circleTold.1.failed.paths = [] ∧
      (∀ file ∈ circleFiles, circleTold.1.loaded.count file = 1) ∧
      ∀ file, circleTold.1.loaded.contains file = true → circleTold.2.countP (Event.visitsRoot file) = 1 := by
  have fresh : Session.new circle.options circle.files = .ok circle := rfl
  have there : circle.files.canonical ⟨"/"⟩ = .ok ⟨"/"⟩ := by decide +kernel
  have sources : circle.sources ⟨"/"⟩ = circleFiles := by decide +kernel
  have named : circle.files.Named := by decide +kernel
  have parsed : ∀ p ∈ circleFiles,
      (Dumper.content.parse circle.files p).1.any (·.size ≤ circle.options.maxNodes) = true := by
    decide +kernel
  have only : ∀ m ∈ through circleTold.2, ∀ e ∈ m.cache.memory.entries, e.1 ∈ circleFiles := by decide +kernel
  have calm : ∀ e ∈ circleTold.2, e.Calm := by decide +kernel
  have told : circle.tellAnalyze ⟨"/"⟩ = .ok (circleTold.1, circleTold.2) := by
    rw [tellAnalyze_eq there, sources, Prod.mk.eta]
    unfold circleTold
    rfl
  have parses (p : Path) (mem : p ∈ circleFiles) :
      ∃ a, (Dumper.content.parse circle.files p).1 = some a ∧ a.size ≤ circle.options.maxNodes := by
    obtain ⟨a, found, fits⟩ := (Option.any_eq_true ..).mp (parsed p mem)
    exact ⟨a, found, of_decide_eq_true fits⟩
  have complete := Cache.complete_of_dumps (c := circle.cache) rfl ⟨rfl, by simp [circle, project]⟩ rfl parses
  have collected : ∀ file ∈ circle.sources ⟨"/"⟩, file ∈ circleFiles := by simp [sources]
  rw [← sources]
  refine circular_requires fresh named there complete collected told only (fun node scope m mem =>
    ?_) fun node scope m mem => ?_
  · exact (calm _ mem).1
  · exact (calm _ mem).2

end Session

end RubyInfer
