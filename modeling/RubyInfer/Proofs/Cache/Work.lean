import RubyInfer.Proofs.Session.Reachable
import RubyInfer.Proofs.Syntax.Conversion

/-!
# What analysis does with the cache

Trees are asked for, and what is in memory is forgotten: that is all that runs do with the cache and
the files (`Runs.work`). What is said of every `Work` from here holds of all trees that an analysis
can meet.
-/

namespace RubyInfer

variable {a : Ast}

namespace Cache

inductive Work : Cache × FileTree → Cache × FileTree → Prop
  | refl (w : Cache × FileTree) : Work w w
  | get {w : Cache × FileTree} {c : Cache} {files : FileTree} (before : Work w (c, files))
      (file : Path) : Work w (c.get file files).2
  | clear {w : Cache × FileTree} {c : Cache} {files : FileTree} (before : Work w (c, files)) :
      Work w (c.clear, files)

theorem Work.trans {u v w : Cache × FileTree} (first : Work u v) (second : Work v w) : Work u w := by
  induction second with
  | refl => exact first
  | get _ file ih => exact ih.get file
  | clear _ ih => exact ih.clear

theorem disk_get (c : Cache) (file : Path) (files : FileTree) : (c.get file files).2.1.disk = c.disk := by
  unfold get
  split
  · rfl
  · split
    · rfl
    · split
      · rfl
      · unfold parse
        dsimp only
        split <;> rfl

theorem Work.disk {v w : Cache × FileTree} (work : Work v w) : w.1.disk = v.1.disk := by
  induction work with
  | refl => rfl
  | get _ file ih => exact (disk_get ..).trans ih
  | clear _ ih => exact ih

/-! ## Dumps in the files -/

section Content

variable {c : Cache} {file : Path} {files : FileTree}

theorem loadFromDisk_of_none (inMemory : c.disk = none) (hash : UInt64) :
    c.loadFromDisk file hash files = (none, files) := by
  unfold loadFromDisk
  rw [inMemory]

theorem storeToDisk_of_none (inMemory : c.disk = none) (a : Ast) : c.storeToDisk a files = files := by
  unfold storeToDisk
  rw [inMemory]

theorem get_cases (content : c.dumper = .content) (inMemory : c.disk = none) (file : Path)
    (files : FileTree) :
    (∃ id, c.memory.get? file = some id ∧
      c.get file files = (id, { c with memoryHits := c.memoryHits + 1 }, files)) ∨
      c.memory.get? file = none ∧
        ((c.dumper.parse files file).1 = none ∧
            (∃ parses, c.get file files = (none, { c with parses }.remember file none, files)) ∨
          ∃ a, (c.dumper.parse files file).1 = some a ∧
            c.get file files = (some c.trees.size,
              ({ c with parses := c.parses + 1 }.addTree file a).2, files)) := by
  cases known : c.memory.get? file with
  | some id =>
    refine .inl ⟨id, rfl, ?_⟩
    unfold get
    rw [known]
  | none =>
    refine .inr ⟨rfl, ?_⟩
    have kept : (c.dumper.parse files file).2 = files := by
      unfold Dumper.parse
      rw [content]
      split <;> rfl
    cases held : files.read file with
    | error e =>
      refine .inl ⟨?_, c.parses, ?_⟩
      · unfold Dumper.parse
        rw [held]
      · unfold get
        rw [known]
        dsimp only
        rw [held]
    | ok source =>
      have got : c.get file files = c.parse file files := by
        unfold get
        rw [known]
        dsimp only
        rw [held]
        dsimp only
        rw [loadFromDisk_of_none inMemory]
      rw [got]
      unfold parse
      dsimp only
      generalize c.dumper.parse files file = parsed at kept
      obtain ⟨outcome, after⟩ := parsed
      cases kept
      cases outcome with
      | none => exact .inl ⟨rfl, c.parses + 1, rfl⟩
      | some a =>
        refine .inr ⟨a, rfl, ?_⟩
        dsimp only
        rw [storeToDisk_of_none (by exact inMemory)]
        rfl

theorem get_content {source : ByteArray} {a : Ast} (content : c.dumper = .content) (inMemory : c.disk = none)
    (new : c.memory.get? file = none) (held : files.read file = .ok source)
    (read : Dumper.read? file source source = some a) :
    c.get file files = (some c.trees.size, ({ c with parses := c.parses + 1 }.addTree file a).2, files) := by
  have parsed : (c.dumper.parse files file).1 = some a := by
    unfold Dumper.parse
    rw [held, content]
    exact read
  obtain ⟨id, known, -⟩ | ⟨-, ⟨failed, -⟩ | ⟨b, made, got⟩⟩ := get_cases content inMemory file files
  · rw [new] at known
    cases known
  · rw [parsed] at failed
    cases failed
  · rw [parsed] at made
    cases made
    exact got

theorem get_of_content (content : c.dumper = .content) (inMemory : c.disk = none) (file : Path)
    (files : FileTree) :
    (c.get file files).2.1.dumper = .content ∧ (c.get file files).2.2 = files := by
  obtain ⟨id, -, got⟩ | ⟨-, ⟨-, parses, got⟩ | ⟨a, -, got⟩⟩ := get_cases content inMemory file files <;>
    exact ⟨(congrArg (·.2.1.dumper) got).trans content, congrArg (·.2.2) got⟩

end Content

theorem work_prewarm (c : Cache) (paths : List Path) (files : FileTree) :
    Work (c, files) (c.prewarm paths files) := by
  unfold prewarm
  generalize paths.filter (fun p => !c.contains p) = missing
  induction missing generalizing c files with
  | nil => exact .refl _
  | cons p missing ih => exact ((Work.refl (c, files)).get p).trans (ih ..)

end Cache

/-! ## Arenas -/

/-- The parts and children of a node come before it, and its parent after it. -/
structure Node.Placed (n : Node) (id : NodeId) (size : Nat) : Prop where
  parts : ∀ part ∈ n.kind.parts, part < id
  children : ∀ child ∈ n.children, child < id
  parent : ∀ owner, n.parent = some owner → id < owner ∧ owner < size

structure Ast.Usable (a : Ast) : Prop where
  root : a.root < a.size
  nodes : ∀ (id : NodeId) (n : Node), a.nodes[id]? = some n → n.Placed id a.size

theorem Ast.WellFormed.usable (wellFormed : a.WellFormed) : a.Usable := by
  refine ⟨Nat.lt_of_lt_of_eq (Nat.lt_succ_self a.root) wellFormed.root_last, fun id n held => ?_⟩
  obtain ⟨same, before⟩ := wellFormed.children_eq id n held
  have paired : n.kind.Paired := by
    cases shape : n.kind with
    | dict keys values => exact wellFormed.paired id n keys values held shape
    | _ => trivial
  refine ⟨fun part mem => before _ (same ▸ Kind.mem_children_of_paired paired mem), before,
    fun owner up => ?_⟩
  have parent : a.parent? id = some owner := by
    rw [Ast.parent?, held]
    exact up
  by_cases top : id = a.root
  · rw [top, wellFormed.root_free] at parent
    cases parent
  · obtain ⟨p, m, here, once, found, -⟩ := wellFormed.owned id (Array.getElem?_eq_some_iff.mp held).1 top
    obtain rfl : p = owner := Option.some.inj (found.symm.trans parent)
    have mem : id ∈ m.children := List.count_pos_iff.mp (once ▸ Nat.one_pos)
    exact ⟨(wellFormed.children_eq p m here).2 id mem, (Array.getElem?_eq_some_iff.mp here).1⟩

theorem Ast.Usable.part_lt (usable : a.Usable) {id part : NodeId} (mem : part ∈ (a.kind id).parts) :
    part < id ∧ id < a.size := by
  unfold kind at mem
  cases held : a.nodes[id]? with
  | none => simp [held, Kind.parts, Kind.children] at mem
  | some n =>
    exact ⟨(usable.nodes id n held).parts part (by simpa [held] using mem),
    (Array.getElem?_eq_some_iff.mp held).1⟩

def Ast.Descends (a : Ast) : Prop := ∀ (id child : NodeId), child ∈ (a.kind id).children → child < id

theorem Ast.Usable.descends (usable : a.Usable) : a.Descends :=
  fun _ _ mem => (usable.part_lt (Kind.children_subset _ mem)).1

theorem Ast.WellFormed.descends (wellFormed : a.WellFormed) : a.Descends := wellFormed.usable.descends

theorem Ast.WellFormed.root_notMem_parts (wellFormed : a.WellFormed) (id : NodeId) :
    a.root ∉ (a.kind id).parts := by
  intro mem
  obtain ⟨lower, inside⟩ := wellFormed.usable.part_lt mem
  have last : id ≤ a.root := Nat.le_of_lt_succ (Nat.lt_of_lt_of_eq inside wellFormed.root_last.symm)
  exact Nat.lt_irrefl _ (Nat.lt_of_lt_of_le lower last)

theorem Dumper.wellFormed_of_read {file : Path} {source dump : ByteArray}
    (read : Dumper.read? file source dump = some a) :
    a.WellFormed ∧ a.file = file ∧ a.hash = Digest.content source := by
  obtain ⟨v, -, made⟩ := Option.bind_eq_some_iff.mp read
  rcases Ast.forest_or_error file (Digest.content source) v
    with ⟨b, root, found, ok, -, forest⟩ | ⟨e, failed, -⟩
  · rw [ok] at made
    cases made
    exact ⟨forest.wellFormed file _, rfl, rfl⟩
  · rw [failed] at made
    cases made

theorem Dumper.wellFormed_of_parse {d : Dumper} {files : FileTree} {file : Path}
    (parsed : (d.parse files file).1 = some a) :
    a.WellFormed ∧ a.file = file := by
  unfold Dumper.parse at parsed
  split at parsed
  · cases parsed
  · split at parsed
    · obtain ⟨wellFormed, home, -⟩ := Dumper.wellFormed_of_read parsed
      exact ⟨wellFormed, home⟩
    · obtain ⟨dump, -, made⟩ := Option.bind_eq_some_iff.mp parsed
      obtain ⟨wellFormed, home, -⟩ := Dumper.wellFormed_of_read made
      exact ⟨wellFormed, home⟩

structure Cache.Dumped (c : Cache) : Prop where
  disk : c.disk = none
  trees : ∀ a ∈ c.trees, a.WellFormed

namespace Cache

variable {c : Cache} {files : FileTree} {file : Path}

theorem Dumped.addTree (dumped : c.Dumped) {a : Ast} (wellFormed : a.WellFormed) :
    (c.addTree file a).2.Dumped := by
  refine ⟨dumped.disk, fun b mem => ?_⟩
  obtain old | rfl := Array.mem_push.mp mem
  · exact dumped.trees b old
  · exact wellFormed

theorem Dumped.get (dumped : c.Dumped) : (c.get file files).2.1.Dumped := by
  unfold Cache.get
  split
  · exact ⟨dumped.disk, dumped.trees⟩
  · split
    · exact ⟨dumped.disk, dumped.trees⟩
    · rw [loadFromDisk_of_none dumped.disk]
      dsimp only
      unfold Cache.parse
      dsimp only
      split
      · exact ⟨dumped.disk, dumped.trees⟩
      · rename_i tree files' parsed
        have made := Dumper.wellFormed_of_parse (congrArg Prod.fst parsed)
        exact Dumped.addTree (c := { c with parses := c.parses + 1 }) ⟨dumped.disk, dumped.trees⟩ made.1

theorem Dumped.work (dumped : c.Dumped) {w : Cache × FileTree} (work : Work (c, files) w) : w.1.Dumped := by
  induction work with
  | refl => exact dumped
  | get _ file ih => exact ih.get
  | clear _ ih => exact ⟨ih.disk, ih.trees⟩

end Cache

/-! ## Sessions -/

namespace Session

variable {R : Regime} {s t : Session}

theorem cache_new {options : Options} {files : FileTree} (made : Session.new options files = .ok s) :
    s.cache = { dumper := s.cache.dumper, disk := s.cache.disk } := by
  obtain ⟨_, _, _, -, rfl⟩ := new_inv made
  rfl

theorem trees_new {options : Options} {files : FileTree}
    (made : Session.new options files = .ok s) : s.cache.trees = #[] := by
  rw [cache_new made]

theorem Change.work (change : Change R s t) : Cache.Work (s.cache, s.files) (t.cache, t.files) := by
  have same := Cache.Work.refl (s.cache, s.files)
  cases change with
  | update step =>
    cases step with
    | fetch file => exact same.get file
    | skipTree => exact same.clear
    | giveUp => exact same.clear
    | _ => exact same
  | _ => exact same

theorem Runs.work (run : Runs R s t) : Cache.Work (s.cache, s.files) (t.cache, t.files) := by
  exact @Runs.lift R s t (fun a b => Cache.Work (a.cache, a.files) (b.cache, b.files))
    (fun _ => .refl _) .trans Change.work run

theorem Advance.work (step : Advance s t) (atTop : s.depth = 0) :
    Cache.Work (s.cache, s.files) (t.cache, t.files) := by
  cases step with
  | begin => exact .refl _
  | prewarm paths => exact s.cache.work_prewarm paths s.files
  | load path force => exact (runs_load s.sound_any atTop path force).work
  | drain id => exact (runs_apply s.sound_any atTop id).work

end Session

end RubyInfer
