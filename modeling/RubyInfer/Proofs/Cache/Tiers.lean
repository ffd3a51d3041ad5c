import Mathlib.Data.List.Forall2
import RubyInfer.Proofs.Cache.Stored
import RubyInfer.Proofs.Path.Table

/-!
# The cache with and without entries on disk

Requests to a cache, restarts of it, and writes and deletions of source files come in any order.
Against them stands a memo that knows nothing of trees by number or of entries: it answers from what
it knows, and else parses the file as it is. A cache follows the memo step by step (`Tracks.run`),
with entries on disk and without, so the entries change no answer (`disk_transparent`).
-/

namespace RubyInfer.Cache

open FileTree

variable {region : List String} {files : FileTree}

/-! ## What happens to a cache -/

inductive Act
  | get (file : Path)
  | put (file : Path) (tree : Ast)
  | remove (file : Path)
  | clear
  | clearDisk
  | prewarm (paths : List Path)
  | restart
  | write (file : Path) (content : ByteArray)
  | delete (file : Path)

def fresh (tier : Option Path) (files : FileTree) : Cache × FileTree :=
  match tier with
  | some folder => withDisk .content folder files
  | none => ({ dumper := .content }, files)

namespace Act

def edit (files : FileTree) : Act → FileTree
  | write file content => (files.write file content).toOption.getD files
  | delete file => (files.deleteFile file).toOption.getD files
  | _ => files

def run (tier : Option Path) (w : Cache × FileTree) : Act → Cache × FileTree
  | get file => (w.1.get file w.2).2
  | put file tree => ({ w.1 with trees := w.1.trees.push tree }.put file w.1.trees.size, w.2)
  | remove file => (w.1.remove file, w.2)
  | clear => (w.1.clear, w.2)
  | clearDisk => (w.1, (w.1.clearDisk w.2).1)
  | prewarm paths => w.1.prewarm paths w.2
  | restart => fresh tier w.2
  | write file content => (w.1, (write file content).edit w.2)
  | delete file => (w.1, (delete file).edit w.2)

def requests : Act → List Path
  | get file => [file]
  | _ => []

def asked : Act → List Path
  | get file => [file]
  | prewarm paths => paths
  | _ => []

def paths : Act → List Path
  | write file _ => [file]
  | delete file => [file]
  | act => act.asked

end Act

def tree? (c : Cache) (id : Option Nat) : Option Ast := id.bind (c.trees[·]?)

def answer (w : Cache × FileTree) (file : Path) : Option Ast :=
  (w.1.get file w.2).2.1.tree? (w.1.get file w.2).1

def answers (tier : Option Path) : List Act → Cache × FileTree → List (Option Ast)
  | [], _ => []
  | act :: acts, w => act.requests.map (answer w) ++ answers tier acts (act.run tier w)

def eras (files : FileTree) : List Act → List FileTree
  | [] => [files]
  | act :: acts => files :: eras (act.edit files) acts

/-- The contents that a file that is asked for has at some time, each with the name of its file. -/
def contents (files : FileTree) (acts : List Act) : List (String × ByteArray) :=
  (eras files acts).flatMap fun era => (acts.flatMap Act.asked).filterMap fun p =>
    (era.read p).toOption.map fun source => (p.baseName, source)

/-! ## The memo -/

/-- What is known of each file, and the source files. -/
structure Memo where
  known : Path → Option (Option Ast) := fun _ => none
  files : FileTree

namespace Memo

def parse (m : Memo) (file : Path) : Option Ast := (Dumper.content.parse m.files file).1

def answer (m : Memo) (file : Path) : Option Ast := (m.known file).getD (m.parse file)

def learn (m : Memo) (paths : List Path) : Memo :=
  { m with known := fun q => (m.known q).or ((paths.find? (·.same q)).map m.parse) }

def note (m : Memo) (file : Path) (result : Option (Option Ast)) : Memo :=
  { m with known := fun q => if file.same q then result else m.known q }

def run (m : Memo) : Act → Memo
  | .get file => m.learn [file]
  | .put file tree => m.note file (some (some tree))
  | .remove file => m.note file none
  | .clear | .restart => { files := m.files }
  | .clearDisk => m
  | .prewarm paths => m.learn paths
  | act => { m with files := act.edit m.files }

def answers : List Act → Memo → List (Option Ast)
  | [], _ => []
  | act :: acts, m => act.requests.map m.answer ++ answers acts (m.run act)

theorem files_run (m : Memo) (act : Act) : (m.run act).files = act.edit m.files := by
  cases act <;> rfl

theorem learn_nil (m : Memo) : m.learn [] = m := by
  simp [learn]

theorem learn_cons (m : Memo) (p : Path) (paths : List Path) :
    m.learn (p :: paths) = (m.learn [p]).learn paths := by
  have parsed : (m.learn [p]).parse = m.parse := rfl
  rw [learn, learn, parsed]
  simp only [learn, Memo.mk.injEq, and_true]
  funext q
  cases m.known q with
  | some result => rfl
  | none => by_cases same : p.same q = true <;> simp [same]

theorem learn_filter {m : Memo} (respects : ∀ p q : Path, p.same q = true → m.known p = m.known q)
    (paths : List Path) :
    m.learn (paths.filter fun p => (m.known p).isNone) = m.learn paths := by
  simp only [learn, Memo.mk.injEq, and_true]
  funext q
  cases known : m.known q with
  | some result => rfl
  | none =>
    have wanted : (fun p : Path => decide ((m.known p).isNone = true ∧ p.same q = true)) = fun p =>
      p.same q := by
      funext p
      by_cases same : p.same q = true <;> simp [same, respects p q, known]
    rw [List.find?_filter, wanted]

theorem learn_known {m : Memo} (respects : ∀ p q : Path, p.same q = true → m.known p = m.known q)
    {file : Path} (known : m.known file ≠ none) : m.learn [file] = m := by
  have filtered := learn_filter respects [file]
  rwa [List.filter_cons_of_neg (by simpa using known), List.filter_nil, learn_nil, eq_comm] at filtered

theorem learn_missing {m : Memo} (respects : ∀ p q : Path, p.same q = true → m.known p = m.known q)
    {file : Path}
    (missing : m.known file = none) : m.learn [file] = m.note file (some (m.parse file)) := by
  simp only [learn, note, Memo.mk.injEq, and_true]
  funext q
  by_cases same : file.same q = true
  · simp [same, ← respects file q same, missing]
  · simp [same]

theorem learn_perm {paths other : List Path} (order : paths.Perm other)
    (spelled : ∀ p ∈ paths, ∀ q ∈ paths, p.same q = true → p = q) (m : Memo) :
    m.learn paths = m.learn other := by
  have found (q : Path) : paths.find? (·.same q) = other.find? (·.same q) := by
    cases left : paths.find? (·.same q) with
    | none =>
      rw [List.find?_eq_none] at left
      exact (List.find?_eq_none.mpr fun p mem => left p (order.mem_iff.mpr mem)).symm
    | some p =>
      have one : p.same q = true := List.find?_some (p := fun r : Path => r.same q) left
      cases right : other.find? (·.same q) with
      | none =>
        rw [List.find?_eq_none] at right
        exact absurd one (right p (order.mem_iff.mp (List.mem_of_find?_eq_some left)))
      | some p' =>
        have two : p'.same q = true := List.find?_some (p := fun r : Path => r.same q) right
        have same : p.same p' = true := Path.same_trans one (Path.same_comm.trans two)
        rw [spelled p (List.mem_of_find?_eq_some left) p'
          (order.mem_iff.mpr (List.mem_of_find?_eq_some right)) same]
  simp only [learn, found]

end Memo

/-! ## Memory -/

structure Recalls (c : Cache) (known : Path → Option (Option Ast)) : Prop where
  numbered : ∀ q id, c.memory.get? q = some (some id) → id < c.trees.size
  known : ∀ q, (c.memory.get? q).map c.tree? = known q

namespace Recalls

variable {c : Cache} {m : Memo} {file : Path}

theorem empty {c : Cache} (empty : c.memory = {}) : Recalls c fun _ => none := by
  refine ⟨fun q id there => ?_, fun q => ?_⟩
  · rw [empty] at there
    cases there
  · rw [empty]
    rfl

section

variable (recalls : Recalls c m.known)
include recalls

theorem counted {memoryHits diskHits parses : Nat} :
    Recalls { c with memoryHits, diskHits, parses } m.known := ⟨recalls.numbered, recalls.known⟩

theorem respects (p q : Path) (same : p.same q = true) : m.known p = m.known q := by
  rw [← recalls.known, ← recalls.known, PathMap.get?_congr same]

theorem missing : c.memory.get? file = none ↔ m.known file = none := by
  rw [← recalls.known, Option.map_eq_none_iff]

theorem remember (file : Path) : Recalls (c.remember file none) (m.note file (some none)).known := by
  refine ⟨fun q id there => ?_, fun q => ?_⟩
  · rw [Cache.remember, PathMap.get?_insert] at there
    split at there
    · cases there
    · exact recalls.numbered q id there
  · rw [Cache.remember, PathMap.get?_insert]
    unfold Memo.note
    dsimp only
    split
    · rfl
    · exact recalls.known q

theorem addTree (file : Path) (a : Ast) :
    Recalls (c.addTree file a).2 (m.note file (some (some a))).known := by
  have size : (c.trees.push a).size = c.trees.size + 1 := Array.size_push a
  refine ⟨fun q id there => ?_, fun q => ?_⟩
  · rw [Cache.addTree, Cache.remember, PathMap.get?_insert] at there
    change id < (c.trees.push a).size
    split at there
    · cases there
      omega
    · have := recalls.numbered q id there
      omega
  · rw [Cache.addTree, Cache.remember, PathMap.get?_insert]
    unfold Memo.note
    dsimp only
    split
    · simp [tree?]
    · rw [← recalls.known q]
      cases there : c.memory.get? q with
      | none => rfl
      | some id =>
        cases id with
        | none => rfl
        | some id => simp [tree?, Array.getElem?_push_lt (recalls.numbered q id there)]

theorem remove (file : Path) : Recalls (c.remove file) (m.note file none).known := by
  refine ⟨fun q id there => ?_, fun q => ?_⟩
  · rw [Cache.remove, PathMap.get?_erase] at there
    split at there
    · cases there
    · exact recalls.numbered q id there
  · rw [Cache.remove, PathMap.get?_erase]
    unfold Memo.note
    dsimp only
    split
    · rfl
    · exact recalls.known q

end

end Recalls

/-! ## Following the memo -/

/-- A cache of dumps and its files follow a memo: memory has what the memo knows, and the files
differ by entries only. -/
structure Tracks (region : List String) (folder : Path) (contents : List (String × ByteArray))
    (w : Cache × FileTree) (m : Memo) :
    Prop where
  content : w.1.dumper = .content
  disk : w.1.disk = none ∨ w.1.disk = some folder
  recalls : Recalls w.1 m.known
  kept : Kept region folder contents w.2 m.files

section

variable {region : List String} {folder file : Path} {contents : List (String × ByteArray)}
    {c : Cache} {files : FileTree}
  {w : Cache × FileTree} {m : Memo} {source : ByteArray} {tier : Option Path}

theorem loadFromDisk_of_kept (disk : c.disk = none ∨ c.disk = some folder)
    (kept : Kept region folder contents files m.files)
    (legible : Legible contents) (occurs : (file.baseName, source) ∈ contents) :
    c.loadFromDisk file (Digest.content source) files = (none, files) ∨
      ∃ a, Dumper.read? file source source = some a ∧
      c.loadFromDisk file (Digest.content source) files = (some a, files) := by
  unfold loadFromDisk
  obtain disk | disk := disk <;> rw [disk]
  · exact .inl rfl
  · exact kept.loadEntry legible occurs

theorem storeToDisk_of_kept (disk : c.disk = none ∨ c.disk = some folder)
    (kept : Kept region folder contents files m.files)
    (occurs : (file.baseName, source) ∈ contents) {a : Ast}
    (read : Dumper.read? file source source = some a) :
    Kept region folder contents (c.storeToDisk a files) m.files := by
  unfold storeToDisk
  obtain disk | disk := disk <;> rw [disk]
  · exact kept
  · exact kept.storeEntry occurs read

theorem parse_of_read (held : files.read file = .ok source) :
    Dumper.content.parse files file = (Dumper.read? file source source, files) := by
  unfold Dumper.parse
  rw [held]

def Entered (contents : List (String × ByteArray)) (c : Cache) (file : Path)
    (files files' : FileTree) : Prop :=
  files' = files ∨ ∃ source a, (file.baseName, source) ∈ contents ∧
    Dumper.read? file source source = some a ∧ files' = c.storeToDisk a files

theorem Kept.entered {files' : FileTree} (kept : Kept region folder contents files m.files)
    (disk : c.disk = none ∨ c.disk = some folder)
    (entered : Entered contents c file files files') : Kept region folder contents files' m.files := by
  obtain rfl | ⟨source, a, occurs, read, rfl⟩ := entered
  · exact kept
  · exact storeToDisk_of_kept disk kept occurs read

theorem get_missing (content : c.dumper = .content) (disk : c.disk = none ∨ c.disk = some folder)
    (kept : Kept region folder contents files m.files) (legible : Legible contents)
    (avoids : files.Avoids region file)
    (occurs : ∀ source, m.files.read file = .ok source → (file.baseName, source) ∈ contents)
    (missing : c.memory.get? file = none) :
    ∃ diskHits parses files', Entered contents c file files files' ∧
      (m.parse file = none ∧ c.get file files =
        (none, { c with diskHits, parses }.remember file none, files') ∨
        ∃ a, m.parse file = some a ∧
          c.get file files = (some c.trees.size, ({ c with diskHits, parses }.addTree file a).2,
            files')) := by
  have same : files.read file = m.files.read file := kept.agree.read avoids
  unfold get
  rw [missing]
  cases held : m.files.read file with
  | error e =>
    refine ⟨c.diskHits, c.parses, files, .inl rfl, .inl ⟨?_, ?_⟩⟩
    · unfold Memo.parse Dumper.parse
      rw [held]
    · dsimp only
      rw [same, held]
  | ok source =>
    have among := occurs source held
    have parsed : m.parse file = Dumper.read? file source source := congrArg Prod.fst (parse_of_read held)
    rw [parsed, same, held]
    dsimp only
    obtain absent | ⟨a, read, found⟩ := loadFromDisk_of_kept disk kept legible among
    · rw [absent]
      unfold parse
      dsimp only
      rw [content, parse_of_read (same.trans held)]
      cases read : Dumper.read? file source source with
      | none => exact ⟨c.diskHits, c.parses + 1, files, .inl rfl, .inl ⟨rfl, rfl⟩⟩
      | some a => exact ⟨c.diskHits, c.parses + 1, _, .inr ⟨source, a, among, read, rfl⟩, .inr ⟨a, rfl, rfl⟩⟩
    · rw [found]
      exact ⟨c.diskHits + 1, c.parses, files, .inl rfl, .inr ⟨a, read, rfl⟩⟩

def Sourced (region : List String) (contents : List (String × ByteArray)) (files : FileTree)
    (p : Path) : Prop :=
  files.Avoids region p ∧ ∀ source, files.read p = .ok source → (p.baseName, source) ∈ contents

namespace Tracks

theorem get (tracks : Tracks region folder contents (c, files) m) (legible : Legible contents)
    (sourced : Sourced region contents m.files file) :
    Tracks region folder contents (c.get file files).2 (m.learn [file]) ∧
      answer (c, files) file = m.answer file := by
  obtain ⟨avoids, occurs⟩ := sourced
  have recalls := tracks.recalls
  cases there : c.memory.get? file with
  | some id =>
    have known : m.known file = some (c.tree? id) := by
      rw [← recalls.known, there]
      rfl
    have got : c.get file files = (id, { c with memoryHits := c.memoryHits + 1 }, files) := by
      unfold Cache.get
      rw [there]
    rw [Memo.learn_known recalls.respects (by simp [known]), answer, Memo.answer, known]
    dsimp only
    rw [got]
    exact ⟨⟨tracks.content, tracks.disk, recalls.counted, tracks.kept⟩, rfl⟩
  | none =>
    have missing := recalls.missing.mp there
    rw [Memo.learn_missing recalls.respects missing, answer, Memo.answer, missing]
    dsimp only
    obtain ⟨diskHits, parses, files', entered, ⟨parsed, got⟩ | ⟨a, parsed, got⟩⟩ :=
      get_missing tracks.content tracks.disk tracks.kept legible
        (tracks.kept.agree.symm.avoids avoids) occurs there
    all_goals have kept := tracks.kept.entered tracks.disk entered
    · rw [got, parsed]
      exact ⟨⟨tracks.content, tracks.disk, recalls.counted.remember file, kept⟩, rfl⟩
    · rw [got, parsed]
      refine ⟨⟨tracks.content, tracks.disk, recalls.counted.addTree file a, kept⟩, ?_⟩
      simp [tree?, addTree, remember]

theorem gets {paths : List Path} (tracks : Tracks region folder contents w m) (legible : Legible contents)
    (sourced : ∀ p ∈ paths, Sourced region contents m.files p) :
    Tracks region folder contents (paths.foldl (fun (c, files) p => (c.get p files).2) w)
      (m.learn paths) := by
  induction paths generalizing w m with
  | nil =>
    rw [Memo.learn_nil]
    exact tracks
  | cons p paths ih =>
    rw [Memo.learn_cons]
    refine ih ?_ fun q mem => sourced q (List.mem_cons_of_mem _ mem)
    exact (tracks.get legible (sourced p List.mem_cons_self)).1

theorem prewarm {paths : List Path} (tracks : Tracks region folder contents (c, files) m)
    (legible : Legible contents) (sourced : ∀ p ∈ paths, Sourced region contents m.files p) :
    Tracks region folder contents (c.prewarm paths files) (m.learn paths) := by
  have wanted : (fun p => !c.contains p) = fun p => (m.known p).isNone := by
    funext p
    rw [Cache.contains, PathMap.contains_eq_isSome, ← tracks.recalls.known]
    cases c.memory.get? p <;> rfl
  unfold Cache.prewarm
  rw [wanted, ← Memo.learn_filter tracks.recalls.respects]
  exact tracks.gets legible fun p mem => sourced p (List.mem_filter.mp mem).1

theorem fresh {bare : FileTree} (kept : Kept region folder contents files bare)
    (tiers : tier = none ∨ tier = some folder) :
    Tracks region folder contents (Cache.fresh tier files) { files := bare } := by
  obtain rfl | rfl := tiers
  · exact ⟨rfl, .inl rfl, .empty rfl, kept⟩
  · have made := kept.clears kept.paved.makeFolders
    unfold Cache.fresh withDisk
    dsimp only
    split
    · rename_i u ready
      rw [ready] at made
      exact ⟨rfl, .inr rfl, .empty rfl, made⟩
    · rename_i u e ready
      rw [ready] at made
      exact ⟨rfl, .inl rfl, .empty rfl, made⟩

end Tracks

theorem Kept.edit {t bare : FileTree} (kept : Kept region folder contents t bare) {act : Act}
    (apart : ∀ p ∈ act.paths, bare.Avoids region p) :
    Kept region folder contents (act.edit t) (act.edit bare) := by
  cases act with
  | write file content =>
    have avoids := kept.agree.symm.avoids (apart file List.mem_cons_self)
    refine kept.outside (kept.agree.write avoids content) (working_write ..) (fun _ => folder_write)
      fun names found inside there => ?_
    obtain ⟨rfl, -⟩ | old := look_write there
    · exact absurd inside (avoids _ (t.place_mem_stops file))
    · exact old
  | delete file =>
    have avoids := kept.agree.symm.avoids (apart file List.mem_cons_self)
    exact kept.outside (kept.agree.deleteFile avoids) (working_deleteFile ..) (fun _ => folder_deleteFile)
      fun _ _ _ => look_deleteFile
  | _ => exact kept

theorem Tracks.run (tracks : Tracks region folder contents w m) (legible : Legible contents)
    (tiers : tier = none ∨ tier = some folder) {act : Act} (apart : ∀ p ∈ act.paths, m.files.Avoids region p)
    (sourced : ∀ p ∈ act.asked, Sourced region contents m.files p) :
    Tracks region folder contents (act.run tier w) (m.run act) := by
  obtain ⟨content, disk, recalls, kept⟩ := tracks
  cases act with
  | get file => exact (Tracks.get ⟨content, disk, recalls, kept⟩ legible (sourced file List.mem_cons_self)).1
  | put file tree => exact ⟨content, disk, recalls.addTree file tree, kept⟩
  | remove file => exact ⟨content, disk, recalls.remove file, kept⟩
  | clear => exact ⟨content, disk, .empty rfl, kept⟩
  | clearDisk =>
    refine ⟨content, disk, recalls, ?_⟩
    dsimp only [Act.run, Cache.clearDisk]
    obtain disk | disk := disk <;> rw [disk]
    · exact kept
    · dsimp only
      split
      · exact kept.clears (.deleteFolder kept.inside)
      · exact kept
  | prewarm paths => exact Tracks.prewarm ⟨content, disk, recalls, kept⟩ legible sourced
  | restart => exact .fresh kept tiers
  | write file content' => exact ⟨content, disk, recalls, kept.edit apart⟩
  | delete file => exact ⟨content, disk, recalls, kept.edit apart⟩

theorem Tracks.answer_missing (tracks : Tracks region folder contents w m) (legible : Legible contents)
    (sourced : Sourced region contents m.files file) (missing : w.1.memory.get? file = none) :
    answer w file = (Dumper.content.parse w.2 file).1 := by
  have same : w.2.read file = m.files.read file :=
    tracks.kept.agree.read (tracks.kept.agree.symm.avoids sourced.1)
  have given : answer w file = m.answer file := (tracks.get legible sourced).2
  rw [given, Memo.answer, tracks.recalls.missing.mp missing]
  unfold Memo.parse Dumper.parse
  rw [same, Option.getD_none]
  cases m.files.read file <;> rfl

/-! ## Runs -/

/-- Source files are read and changed outside the region, and whatever they hold when one of them is
asked for is among these contents. -/
structure Lawful (region : List String) (contents : List (String × ByteArray)) (files : FileTree)
    (acts : List Act) : Prop where
  apart : ∀ p ∈ acts.flatMap Act.paths, files.Avoids region p
  occurs : ∀ era ∈ eras files acts, ∀ p ∈ acts.flatMap Act.asked, ∀ source,
      era.read p = .ok source → (p.baseName, source) ∈ contents

theorem Act.asked_subset (act : Act) : act.asked ⊆ act.paths := by
  cases act <;> simp [asked, paths]

theorem Act.working_edit (act : Act) (files : FileTree) : (act.edit files).working = files.working := by
  cases act with
  | write file content => exact working_write ..
  | delete file => exact working_deleteFile ..
  | _ => rfl

theorem Lawful.cons {act : Act} {acts : List Act} (lawful : Lawful region contents files (act :: acts)) :
    (∀ p ∈ act.paths, files.Avoids region p) ∧ (∀ p ∈ act.asked, Sourced region contents files p) ∧
      Lawful region contents (act.edit files) acts := by
  have apart : ∀ p ∈ act.paths, files.Avoids region p := fun p mem =>
    lawful.apart p (List.mem_flatMap.mpr ⟨act, List.mem_cons_self, mem⟩)
  refine ⟨apart, fun p mem => ⟨apart p (act.asked_subset mem), ?_⟩, fun p mem => ?_,
    fun era later p mem => ?_⟩
  · exact lawful.occurs files List.mem_cons_self p (List.mem_flatMap.mpr ⟨act, List.mem_cons_self, mem⟩)
  · unfold Avoids
    rw [start_congr (act.working_edit files)]
    exact lawful.apart p (List.mem_append_right _ mem)
  · exact lawful.occurs era (List.mem_cons_of_mem _ later) p (List.mem_append_right _ mem)

theorem Tracks.answers {acts : List Act} (tracks : Tracks region folder contents w m)
    (legible : Legible contents)
    (tiers : tier = none ∨ tier = some folder) (lawful : Lawful region contents m.files acts) :
    Cache.answers tier acts w = m.answers acts := by
  induction acts generalizing w m with
  | nil => rfl
  | cons act acts ih =>
    obtain ⟨apart, sourced, later⟩ := lawful.cons
    have given : act.requests.map (answer w) = act.requests.map m.answer := by
      cases act with
      | get file => exact congrArg (List.cons · []) (tracks.get legible (sourced file List.mem_cons_self)).2
      | _ => rfl
    have rest := ih (tracks.run legible tiers apart sourced) (m.files_run act ▸ later)
    rw [Cache.answers, Memo.answers, given, rest]

theorem Tracks.reaches {before after : List Act} (tracks : Tracks region folder contents w m)
    (legible : Legible contents) (tiers : tier = none ∨ tier = some folder)
    (lawful : Lawful region contents m.files (before ++ .get file :: after)) :
    ∃ m', Tracks region folder contents (before.foldl (Act.run tier) w) m' ∧
      Sourced region contents m'.files file := by
  induction before generalizing w m with
  | nil => exact ⟨m, tracks, lawful.cons.2.1 file List.mem_cons_self⟩
  | cons act before ih =>
    obtain ⟨apart, sourced, later⟩ := lawful.cons
    exact ih (tracks.run legible tiers apart sourced) (m.files_run act ▸ later)

end

/-! ## Files in another order -/

/-- The same act, or the same files read ahead in another order; then each place among them is
spelled in one way. -/
inductive Act.Alike : Act → Act → Prop
  | refl (act : Act) : Alike act act
  | prewarm {paths other : List Path} (order : paths.Perm other)
      (spelled : ∀ p ∈ paths, ∀ q ∈ paths, p.same q = true → p = q) :
      Alike (.prewarm paths) (.prewarm other)

namespace Act.Alike

variable {a b : Act}

theorem run (alike : Alike a b) (m : Memo) : m.run a = m.run b := by
  cases alike with
  | refl => rfl
  | prewarm order spelled => exact Memo.learn_perm order spelled m

theorem edit (alike : Alike a b) (files : FileTree) : a.edit files = b.edit files := by
  cases alike <;> rfl

theorem requests (alike : Alike a b) : a.requests = b.requests := by
  cases alike <;> rfl

theorem asked (alike : Alike a b) : b.asked ⊆ a.asked := by
  cases alike with
  | refl => exact List.Subset.refl _
  | prewarm order => exact order.symm.subset

theorem paths (alike : Alike a b) : b.paths ⊆ a.paths := by
  cases alike with
  | refl => exact List.Subset.refl _
  | prewarm order => exact order.symm.subset

end Act.Alike

variable {acts acts' : List Act}

theorem Memo.answers_alike (alike : List.Forall₂ Act.Alike acts acts') (m : Memo) :
    m.answers acts = m.answers acts' := by
  induction alike generalizing m with
  | nil => rfl
  | cons head _ ih => rw [Memo.answers, Memo.answers, head.requests, head.run, ih]

theorem eras_alike (alike : List.Forall₂ Act.Alike acts acts') (files : FileTree) :
    eras files acts = eras files acts' := by
  induction alike generalizing files with
  | nil => rfl
  | cons head _ ih => rw [eras, eras, head.edit, ih]

theorem flatMap_subset_of_alike (alike : List.Forall₂ Act.Alike acts acts') {f : Act → List Path}
    (fewer : ∀ a b, Act.Alike a b → f b ⊆ f a) : acts'.flatMap f ⊆ acts.flatMap f := by
  induction alike with
  | nil => exact List.Subset.refl _
  | cons head _ ih =>
    rw [List.flatMap_cons, List.flatMap_cons]
    refine List.append_subset.mpr ⟨?_, ?_⟩
    · exact List.Subset.trans (fewer _ _ head) (List.subset_append_left ..)
    · exact List.Subset.trans ih (List.subset_append_right ..)

theorem Lawful.alike {contents : List (String × ByteArray)} (lawful : Lawful region contents files acts)
    (alike : List.Forall₂ Act.Alike acts acts') : Lawful region contents files acts' := by
  refine ⟨fun p mem => lawful.apart p ?_, fun era later p mem => lawful.occurs era ?_ p ?_⟩
  · exact flatMap_subset_of_alike alike (fun _ _ => Act.Alike.paths) mem
  · rwa [eras_alike alike]
  · exact flatMap_subset_of_alike alike (fun _ _ => Act.Alike.asked) mem

/-! ## The entries do not show -/

/-- The folder of the entries lies in a region that no source file is read or written through. It is
empty or not there at first, and what is missing on the way to it is in the region. The contents of
source files under one name are told apart by their digests. -/
structure Sheltered (region : List String) (folder : Path) (files : FileTree) (acts : List Act) : Prop where
  inside : region <+: files.place folder
  paved : files.Paved region folder.withParents
  empty : ∀ name, files.look (files.place folder ++ [name]) = none
  apart : ∀ p ∈ acts.flatMap Act.paths, files.Avoids region p
  legible : Legible (contents files acts)

theorem Sheltered.kept {folder : Path} (sheltered : Sheltered region folder files acts) :
    Kept region folder (contents files acts) files files := by
  refine ⟨.refl region files, sheltered.inside, sheltered.paved, fun name bytes there => ?_⟩
  rw [sheltered.empty] at there
  cases there

theorem Sheltered.lawful {folder : Path} (sheltered : Sheltered region folder files acts) :
    Lawful region (contents files acts) files acts := by
  refine ⟨sheltered.apart, fun era later p mem source held => ?_⟩
  refine List.mem_flatMap.mpr ⟨era, later, List.mem_filterMap.mpr ⟨p, mem, ?_⟩⟩
  rw [held]
  rfl

/-- Whatever is asked, forgotten, deleted, read ahead and restarted, and however source files change
meanwhile, a cache gives the same trees with entries on disk as without them. What is not in memory
is given as parsing the file as it is would give it. -/
theorem disk_transparent {region : List String} {folder : Path} {files : FileTree}
    (sheltered : Sheltered region folder files acts) (alike : List.Forall₂ Act.Alike acts acts') :
    answers (some folder) acts (fresh (some folder) files) = answers none acts' (fresh none files) ∧
      ∀ tier ∈ [none, some folder], ∀ before file after, acts = before ++ .get file :: after →
        (before.foldl (Act.run tier) (fresh tier files)).1.memory.get? file = none →
          answer (before.foldl (Act.run tier) (fresh tier files)) file =
            (Dumper.content.parse (before.foldl (Act.run tier) (fresh tier files)).2 file).1 := by
  have legible := sheltered.legible
  refine ⟨?_, fun tier among before file after split missing => ?_⟩
  · have withEntries := (Tracks.fresh sheltered.kept (.inr rfl)).answers legible (.inr rfl) sheltered.lawful
    have without := (Tracks.fresh sheltered.kept (.inl rfl)).answers legible (.inl rfl)
      (sheltered.lawful.alike alike)
    rw [withEntries, without]
    exact Memo.answers_alike alike _
  · have tiers : tier = none ∨ tier = some folder := by simpa using among
    subst split
    obtain ⟨m, tracks, sourced⟩ := (Tracks.fresh sheltered.kept tiers).reaches legible tiers sheltered.lawful
    exact tracks.answer_missing legible sourced missing

def numeral (digits : String) : ByteArray := ("\x7b\"type\":\"int\",\"value\":" ++ digits ++ "\x7d").toUTF8

def twins : FileTree where
  root := .folder [("p", .folder [("a.rb", .file (numeral "1"))]),
      ("q", .folder [("a.rb", .file (numeral "1"))])]

def twinActs (ahead : List Path) : List Act :=
  [.get ⟨"/p/a.rb"⟩, .get ⟨"/q/a.rb"⟩, .write ⟨"/p/a.rb"⟩ (numeral "2"), .get ⟨"/p/a.rb"⟩, .restart,
    .prewarm ahead,
    .get ⟨"/p/a.rb"⟩, .clearDisk, .delete ⟨"/q/a.rb"⟩, .remove ⟨"/q/a.rb"⟩, .get ⟨"/q/a.rb"⟩]

theorem sheltered_twins : Sheltered ["c"] ⟨"/c"⟩ twins (twinActs [⟨"/p/a.rb"⟩, ⟨"/q/a.rb"⟩]) := by
  have occurring : ∀ u ∈ contents twins (twinActs [⟨"/p/a.rb"⟩, ⟨"/q/a.rb"⟩]),
      u = ("a.rb", numeral "1") ∨ u = ("a.rb", numeral "2") := by
    decide +kernel
  have digests : Digest.content (numeral "1") ≠ Digest.content (numeral "2") := by decide +kernel
  refine ⟨by decide +kernel, by decide +kernel, fun name => rfl, by
    decide +kernel, fun u left v right _ same => ?_, fun u mem => ?_⟩
  · obtain rfl | rfl := occurring u left <;> obtain rfl | rfl := occurring v right
    · rfl
    · exact absurd same digests
    · exact absurd same.symm digests
    · rfl
  · obtain rfl | rfl := occurring u mem <;> decide +kernel

theorem disk_transparent_twins :
    (fresh (some ⟨"/c"⟩) twins).1.disk = some ⟨"/c"⟩ ∧
      answers (some ⟨"/c"⟩) (twinActs [⟨"/p/a.rb"⟩, ⟨"/q/a.rb"⟩]) (fresh (some ⟨"/c"⟩) twins) =
        answers none (twinActs [⟨"/q/a.rb"⟩, ⟨"/p/a.rb"⟩]) (fresh none twins) ∧
      answer ((Act.get ⟨"/p/a.rb"⟩).run (some ⟨"/c"⟩) (fresh (some ⟨"/c"⟩) twins)) ⟨"/q/a.rb"⟩ =
        (Dumper.content.parse ((Act.get ⟨"/p/a.rb"⟩).run (some ⟨"/c"⟩)
          (fresh (some ⟨"/c"⟩) twins)).2 ⟨"/q/a.rb"⟩).1 := by
  have alike : List.Forall₂ Act.Alike (twinActs [⟨"/p/a.rb"⟩, ⟨"/q/a.rb"⟩])
      (twinActs [⟨"/q/a.rb"⟩, ⟨"/p/a.rb"⟩]) := by
    have ahead : Act.Alike (.prewarm [⟨"/p/a.rb"⟩, ⟨"/q/a.rb"⟩]) (.prewarm [⟨"/q/a.rb"⟩, ⟨"/p/a.rb"⟩]) :=
      .prewarm (.swap ..) (by decide +kernel)
    unfold twinActs
    repeat' first
      | exact .nil
      | exact ahead
      | exact .refl _
      | refine .cons ?_ ?_
  have missing : ((Act.get ⟨"/p/a.rb"⟩).run (some ⟨"/c"⟩) (fresh (some ⟨"/c"⟩) twins)).1.memory.get?
      ⟨"/q/a.rb"⟩ = none := by
    decide +kernel
  obtain ⟨same, given⟩ := disk_transparent sheltered_twins alike
  exact ⟨by decide +kernel, same, given (some ⟨"/c"⟩) (by simp) [.get ⟨"/p/a.rb"⟩] ⟨"/q/a.rb"⟩ _ rfl missing⟩

def detour : FileTree where
  root := .folder [("p", .folder [("a.rb", .file (numeral "1"))]), ("c", .folder [])]

def detourActs : List Act := [.clearDisk, .get ⟨"/c/../p/a.rb"⟩]

/-- A file outside the folder of the entries is not found through that folder once it is deleted
with them. -/
theorem disk_transparent_detour :
    (∀ name, detour.look (detour.place ⟨"/c"⟩ ++ [name]) = none) ∧
      detour.place ⟨"/c/../p/a.rb"⟩ = ["p", "a.rb"] ∧
      Legible (contents detour detourActs) ∧
      answers (some ⟨"/c"⟩) detourActs (fresh (some ⟨"/c"⟩) detour) ≠
        answers none detourActs (fresh none detour) := by
  have occurring : ∀ u ∈ contents detour detourActs, u = ("a.rb", numeral "1") := by decide +kernel
  refine ⟨fun name => rfl, by decide +kernel, ⟨fun u left v right _ _ => ?_, fun u mem => ?_⟩, ?_⟩
  · rw [occurring u left, occurring v right]
  · rw [occurring u mem]
    decide +kernel
  · have gone : answers (some ⟨"/c"⟩) detourActs (fresh (some ⟨"/c"⟩) detour) = [none] := by decide +kernel
    have found : (answers none detourActs (fresh none detour)).map Option.isSome = [true] := by decide +kernel
    intro same
    rw [← same, gone] at found
    cases found

end RubyInfer.Cache
