import Mathlib.Logic.Relator
import RubyInfer.Proofs.Cache.Tiers
import RubyInfer.Proofs.FileTree.Below

/-!
# A cache beside a plain one

A plain cache has nothing but memory. Beside it stands a cache that may have entries on disk, and
trees in memory that were read ahead. Both give the same trees under numbers of their own, and
`Paired` links the numbers as the plain cache comes to know them (`Paired.get`). What the other
cache has before that is what parsing gives, under a number that nothing is linked to yet.
-/

namespace RubyInfer.Cache

open FileTree Relator

variable {region : List String} {folder file : Path} {contents : List (String × ByteArray)}
    {bare t : FileTree} {m : Memo}
  {L : Nat → Nat → Prop} {c c' : Cache} {w w' : Cache × FileTree}

/-! ## A region for entries -/

def Reserved (region : List String) (folder : Path) (contents : List (String × ByteArray))
    (t : FileTree) : Prop :=
  ∀ names bytes, region <+: names → t.look names = some (.file bytes) →
    ∃ name, names = t.place folder ++ [name] ∧ Stored contents name bytes

theorem Reserved.clears {u : FileTree} (reserved : Reserved region folder contents t)
    (clears : Clears region t u) :
    Reserved region folder contents u := by
  intro names bytes inside there
  rw [place_congr clears.agree.working]
  exact reserved names bytes inside (clears.files names bytes there)

def Entry.Foreign (p : Path) : Prop := ∃ name ∈ p.parts.names.getLast?, ¬".ast".toList <:+ name.toList

theorem Reserved.hides {d tail : Path} (reserved : Reserved region folder contents t)
    (named : ∀ name ∈ t.working, Path.Proper name)
    (outside : ¬region <+: t.place d) (foreign : t.place d <+: region → Entry.Foreign tail) :
    Hides region t d fun p => p.endsIn tail := by
  intro rest bytes inside there
  obtain ⟨name, whole, source, content, a, -, -, rfl, -⟩ := reserved _ bytes inside there
  have around : t.place d <+: region := by
    rcases List.prefix_or_prefix_of_prefix inside (List.prefix_append (t.place d) rest) with under | above
    · exact absurd under outside
    · exact above
  have some : rest ≠ [] := by
    rintro rfl
    exact outside (by simpa using inside)
  obtain ⟨before, final, rfl⟩ : ∃ before final, rest = before ++ [final] :=
    ⟨_, _, (List.dropLast_append_getLast some).symm⟩
  rw [← List.append_assoc] at whole
  obtain ⟨home, same⟩ := List.append_inj' whole rfl
  obtain rfl := List.singleton_inj.mp same
  obtain ⟨given, dot, dots⟩ := Entry.fileName_proper source (Digest.content content)
  have proper : ∀ name ∈ before ++ [Entry.fileName source (Digest.content content)], Path.Proper name := by
    intro name mem
    rcases List.mem_append.mp mem with inner | rest
    · exact proper_place named folder name (home ▸ List.mem_append_right _ inner)
    · rw [List.mem_singleton.mp rest]
      exact ⟨given, dot, dots, Entry.slash_notMem_fileName source _⟩
  obtain ⟨-, front, -, joined⟩ := Path.join_relative (p := d) (Path.not_absolute_ofPieces some proper)
  rw [Path.pieces_ofPieces some proper, ← List.append_assoc] at joined
  have ends := Path.getLast?_parts joined (by simp [Path.isName, given, dot])
  obtain ⟨last, found, other⟩ := foreign around
  rw [Bool.eq_false_iff]
  intro met
  obtain rfl := Option.some.inj (ends.symm.trans (Path.getLast?_of_endsIn met found))
  exact other (by rw [Entry.toList_fileName]; exact List.suffix_append ..)

/-- The files `bare` with a folder of entries in a region of its own, which holds nothing else;
around it, all else is in the same order. -/
structure Stocked (region : List String) (folder : Path) (contents : List (String × ByteArray))
    (t bare : FileTree) : Prop where
  kept : Kept region folder contents t bare
  level : Level region t bare
  reserved : Reserved region folder contents t

namespace Stocked

theorem empty (inside : region <+: t.place folder) (paved : t.Paved region folder.withParents)
    (vacant : ∀ names bytes, region <+: names → t.look names ≠ some (.file bytes)) :
    Stocked region folder contents t t := by
  refine ⟨⟨.refl _ _, inside, paved, fun name bytes there => ?_⟩, .refl _ _,
    fun names bytes within there => ?_⟩
  · exact absurd there (vacant _ _ (inside.trans (List.prefix_append ..)))
  · exact absurd there (vacant _ _ within)

section

variable (stocked : Stocked region folder contents t bare)
include stocked

theorem clears {u : FileTree} (clears : Clears region t u) : Stocked region folder contents u bare :=
  ⟨stocked.kept.clears clears, clears.level.trans stocked.level, stocked.reserved.clears clears⟩

theorem fresh {tier : Option Path} (tiers : tier = none ∨ tier = some folder) :
    Stocked region folder contents (Cache.fresh tier t).2 bare := by
  rcases tiers with rfl | rfl
  · exact stocked
  · have made := stocked.clears stocked.kept.paved.makeFolders
    unfold Cache.fresh withDisk
    dsimp only
    split <;> rename_i ready <;> rw [ready] at made <;> exact made

theorem storeEntry {source : ByteArray} {a : Ast} (occurs : (file.baseName, source) ∈ contents)
    (read : Dumper.read? file source source = some a) :
    Stocked region folder contents (Cache.storeEntry folder a t) bare := by
  have kept := stocked.kept.storeEntry occurs read
  have made := stocked.clears stocked.kept.paved.makeFolders
  obtain ⟨-, home, hash⟩ := Dumper.wellFormed_of_read read
  unfold Cache.storeEntry at kept ⊢
  split at kept <;> rename_i ready <;> rw [ready] at made
  · exact made
  · rename_i u
    have place := Kept.place_entry u folder a.file a.hash
    have inside : region <+: u.place (folder.join ⟨Entry.fileName a.file a.hash⟩) :=
      place ▸ made.kept.inside.trans (List.prefix_append ..)
    refine ⟨kept, (Level.write inside _).trans made.level, fun names bytes within there => ?_⟩
    rw [place_congr (working_write ..)]
    obtain ⟨rfl, rfl⟩ | old := look_write there
    · exact ⟨_, place, file, source, a, occurs, read, by rw [home, hash], rfl⟩
    · exact made.reserved names bytes within old

theorem entered {files' : FileTree} (disk : c.disk = none ∨ c.disk = some folder)
    (entered : Entered contents c file t files') :
    Stocked region folder contents files' bare := by
  obtain rfl | ⟨source, a, occurs, read, rfl⟩ := entered
  · exact stocked
  · unfold storeToDisk
    obtain disk | disk := disk <;> rw [disk]
    · exact stocked
    · exact stocked.storeEntry occurs read

end

end Stocked

/-! ## Two caches -/

/-- What two caches have in memory for a file, where the other one has these trees and this
memory. -/
inductive Held (region : List String) (bare : FileTree) (L : Nat → Nat → Prop) (trees : Array Ast)
    (memory : PathMap (Option Nat)) (file : Path) :
    Option (Option Nat) → Option (Option Nat) → Prop
  | missing : Held region bare L trees memory file none none
  | failed : Held region bare L trees memory file (some none) (some none)
  | linked {n n' : Nat} (link : L n n') : Held region bare L trees memory file (some (some n))
      (some (some n'))
  | failedAhead (parsed : (Memo.mk (fun _ => none) bare).parse file = none) :
      Held region bare L trees memory file none (some none)
  | ahead {n' : Nat} {a : Ast} (tree : trees[n']? = some a)
      (parsed : (Memo.mk (fun _ => none) bare).parse file = some a) (unlinked : ∀ n, ¬L n n')
      (alone : ∀ g : Path, g.Past region → memory.get? g = some (some n') → g = file) :
      Held region bare L trees memory file none (some (some n'))

structure Paired (region : List String) (folder : Path) (contents : List (String × ByteArray))
    (bare : FileTree) (L : Nat → Nat → Prop) (w w' : Cache × FileTree) : Prop where
  files : w.2 = bare
  plain : w.1.dumper = .content ∧ w.1.disk = none
  content : w'.1.dumper = .content
  disk : w'.1.disk = none ∨ w'.1.disk = some folder
  stocked : Stocked region folder contents w'.2 bare
  unique : BiUnique L
  linked {n n' : Nat} : L n n' → ∃ a, w.1.trees[n]? = some a ∧ w'.1.trees[n']? = some a
  memory (f : Path) : f.Past region →
      Held region bare L w'.1.trees w'.1.memory f (w.1.memory.get? f) (w'.1.memory.get? f)

theorem get_plain (content : c.dumper = .content) (disk : c.disk = none)
    (missing : c.memory.get? file = none) :
    ∃ parses, (m.parse file = none ∧
      c.get file m.files = (none, { c with parses }.remember file none, m.files)) ∨
      ∃ a, m.parse file = some a ∧
      c.get file m.files = (some c.trees.size, ({ c with parses }.addTree file a).2, m.files) := by
  have fromDisk (hash : UInt64) : c.loadFromDisk file hash m.files = (none, m.files) := by
    unfold loadFromDisk
    rw [disk]
  unfold get
  rw [missing]
  cases held : m.files.read file with
  | error e =>
    refine ⟨c.parses, .inl ⟨?_, rfl⟩⟩
    unfold Memo.parse Dumper.parse
    rw [held]
  | ok source =>
    have parsed : m.parse file = Dumper.read? file source source := congrArg Prod.fst (parse_of_read held)
    dsimp only
    rw [fromDisk, parsed]
    unfold parse
    dsimp only
    rw [content, parse_of_read held]
    refine ⟨c.parses + 1, ?_⟩
    cases Dumper.read? file source source with
    | none => exact .inl ⟨rfl, rfl⟩
    | some a =>
      refine .inr ⟨a, rfl, ?_⟩
      unfold storeToDisk
      dsimp only
      rw [disk]
      rfl

theorem get_of_held {tree : Option Nat} (there : c.memory.get? file = some tree) (files : FileTree) :
    c.get file files = (tree, { c with memoryHits := c.memoryHits + 1 }, files) := by
  unfold get
  rw [there]

theorem getElem?_push_of_some {α : Type} {xs : Array α} {n : Nat} {x : α} (there : xs[n]? = some x)
    (y : α) : (xs.push y)[n]? = some x := by
  obtain ⟨inRange, rfl⟩ := Array.getElem?_eq_some_iff.mp there
  exact Array.getElem?_push_lt inRange

namespace Held

variable {left right : Option (Option Nat)} {trees trees' : Array Ast} {memory memory' : PathMap (Option Nat)}

theorem change (held : Held region bare L trees memory file left right)
    (kept : ∀ (n' : Nat) (a : Ast), trees[n']? = some a → trees'[n']? = some a)
    (old : ∀ (g : Path) (n' : Nat), n' < trees.size → memory'.get? g = some (some n') →
      memory.get? g = some (some n')) :
    Held region bare L trees' memory' file left right := by
  cases held with
  | missing => exact .missing
  | failed => exact .failed
  | linked link => exact .linked link
  | failedAhead parsed => exact .failedAhead parsed
  | @ahead n' a tree parsed unlinked alone =>
    refine .ahead (kept _ _ tree) parsed unlinked fun g past there => alone g past (old g n' ?_ there)
    exact (Array.getElem?_eq_some_iff.mp tree).1

theorem link (held : Held region bare L trees memory file left right) (n : Nat) {n' : Nat}
    (other : right ≠ some (some n')) :
    Held region bare (fun i j => L i j ∨ i = n ∧ j = n') trees memory file left right := by
  cases held with
  | missing => exact .missing
  | failed => exact .failed
  | linked link => exact .linked (.inl link)
  | failedAhead parsed => exact .failedAhead parsed
  | ahead tree parsed unlinked alone =>
    refine .ahead tree parsed (fun i linked => ?_) alone
    rcases linked with old | ⟨-, rfl⟩
    · exact unlinked i old
    · exact other rfl

end Held

namespace Paired

variable {files files' : FileTree}

theorem fresh {tier : Option Path} (stocked : Stocked region folder contents t bare)
    (tiers : tier = none ∨ tier = some folder) :
    Paired region folder contents bare (fun _ _ => False) ({ dumper := .content }, bare)
      (Cache.fresh tier t) := by
  have tracks := Tracks.fresh stocked.kept tiers
  have missing (f : Path) : (Cache.fresh tier t).1.memory.get? f = none := tracks.recalls.missing.mpr rfl
  refine ⟨rfl, ⟨rfl, rfl⟩, tracks.content, tracks.disk, stocked.fresh tiers, ⟨?_, ?_⟩, False.elim,
    fun f _ => ?_⟩
  · exact fun _ _ _ link => link.elim
  · exact fun _ _ _ link => link.elim
  · rw [missing]
    exact .missing

theorem clear (paired : Paired region folder contents bare L (c, files) (c', files')) :
    Paired region folder contents bare L (c.clear, files) (c'.clear, files') :=
      { paired with memory := fun _ _ => .missing }

theorem inRange (paired : Paired region folder contents bare L w w') (past : file.Past region) {n' : Nat}
    (there : w'.1.memory.get? file = some (some n')) : n' < w'.1.trees.size := by
  have held := paired.memory file past
  rw [there] at held
  generalize w.1.memory.get? file = left at held
  cases held with
  | linked link =>
    obtain ⟨a, -, tree⟩ := paired.linked link
    exact (Array.getElem?_eq_some_iff.mp tree).1
  | ahead tree => exact (Array.getElem?_eq_some_iff.mp tree).1

theorem linked_lt (paired : Paired region folder contents bare L w w') {n n' : Nat} (link : L n n') :
    n < w.1.trees.size ∧ n' < w'.1.trees.size := by
  obtain ⟨a, left, right⟩ := paired.linked link
  exact ⟨(Array.getElem?_eq_some_iff.mp left).1, (Array.getElem?_eq_some_iff.mp right).1⟩

/-! ## The other cache is asked -/

theorem rememberAhead (paired : Paired region folder contents bare L w (c', files')) (past : file.Past region)
    (absent : w.1.memory.get? file = none) (parsed : (Memo.mk (fun _ => none) bare).parse file = none) :
    Paired region folder contents bare L w (c'.remember file none, files') := by
  refine { paired with memory := fun f pastF => ?_ }
  show Held region bare L c'.trees (c'.memory.insert file none) f (w.1.memory.get? f)
      ((c'.memory.insert file none).get? f)
  rw [PathMap.get?_insert]
  split
  · rename_i same
    obtain rfl := past.eq_of_same pastF same
    rw [absent]
    exact .failedAhead parsed
  · apply (paired.memory f pastF).change (fun _ _ tree => tree)
    intro g n' _ there
    rw [PathMap.get?_insert] at there
    split at there
    · cases there
    · exact there

theorem addTreeAhead (paired : Paired region folder contents bare L w (c', files')) (past : file.Past region)
    (absent : w.1.memory.get? file = none) {a : Ast}
    (parsed : (Memo.mk (fun _ => none) bare).parse file = some a) :
    Paired region folder contents bare L w ((c'.addTree file a).2, files') := by
  have kept (n' : Nat) (b : Ast) (tree : c'.trees[n']? = some b) :
      (c'.trees.push a)[n']? = some b := getElem?_push_of_some tree a
  refine { paired with linked := fun link => ?_, memory := fun f pastF => ?_ }
  · obtain ⟨b, left, right⟩ := paired.linked link
    exact ⟨b, left, kept _ _ right⟩
  · show Held region bare L (c'.trees.push a) (c'.memory.insert file (some c'.trees.size)) f
        (w.1.memory.get? f)
      ((c'.memory.insert file (some c'.trees.size)).get? f)
    rw [PathMap.get?_insert]
    split
    · rename_i same
      obtain rfl := past.eq_of_same pastF same
      rw [absent]
      refine .ahead Array.getElem?_push_size parsed (fun n link => ?_) fun g pastG there => ?_
      · exact Nat.lt_irrefl _ (paired.linked_lt link).2
      · rw [PathMap.get?_insert] at there
        split at there
        · rename_i same
          exact (past.eq_of_same pastG same).symm
        · exact absurd (paired.inRange pastG there) (Nat.lt_irrefl _)
    · apply (paired.memory f pastF).change kept
      intro g n' (old : n' < c'.trees.size) there
      rw [PathMap.get?_insert] at there
      split at there
      · cases there
        exact absurd old (Nat.lt_irrefl _)
      · exact there

theorem ahead (paired : Paired region folder contents bare L w (c', files')) (legible : Legible contents)
    (past : file.Past region)
    (occurs : ∀ source, bare.read file = .ok source → (file.baseName, source) ∈ contents) :
    Paired region folder contents bare L w (c'.get file files').2 ∧
      (c'.get file files').2.1.memory.get? file = some (c'.get file files').1 := by
  cases there : c'.memory.get? file with
  | some tree =>
    rw [get_of_held there]
    exact ⟨{ paired with }, there⟩
  | none =>
    have absent : w.1.memory.get? file = none := by
      have held := paired.memory file past
      rw [show (c', files').1.memory.get? file = none from there] at held
      generalize w.1.memory.get? file = left at held
      cases held
      rfl
    obtain ⟨diskHits, parses, after, entered, ⟨parsed, got⟩ | ⟨a, parsed, got⟩⟩ :=
      get_missing (c := c') (m := ⟨fun _ => none, bare⟩) paired.content paired.disk
        paired.stocked.kept legible (avoids_of_past past _) occurs there
    all_goals
      have counted : Paired region folder contents bare L w ({ c' with diskHits, parses }, after) :=
        { paired with stocked := paired.stocked.entered paired.disk entered }
      rw [got]
    · refine ⟨counted.rememberAhead past absent parsed, ?_⟩
      show (c'.memory.insert file none).get? file = some none
      rw [PathMap.get?_insert, if_pos (Path.same_refl file)]
    · refine ⟨counted.addTreeAhead past absent parsed, ?_⟩
      show (c'.memory.insert file (some c'.trees.size)).get? file = some (some c'.trees.size)
      rw [PathMap.get?_insert, if_pos (Path.same_refl file)]

/-! ## The plain cache is asked -/

section

variable (paired : Paired region folder contents bare L (c, files) w') (past : file.Past region)
include paired past

theorem rememberBehind (there : w'.1.memory.get? file = some none) :
    Paired region folder contents bare L (c.remember file none, files) w' := by
  refine { paired with memory := fun f pastF => ?_ }
  show Held region bare L w'.1.trees w'.1.memory f ((c.memory.insert file none).get? f) (w'.1.memory.get? f)
  rw [PathMap.get?_insert]
  split
  · rename_i same
    obtain rfl := past.eq_of_same pastF same
    rw [there]
    exact .failed
  · exact paired.memory f pastF

theorem addTreeBehind {n' : Nat} {a : Ast} (there : w'.1.memory.get? file = some (some n'))
    (tree : w'.1.trees[n']? = some a) (unlinked : ∀ n, ¬L n n')
    (alone : ∀ g : Path, g.Past region → w'.1.memory.get? g = some (some n') → g = file) :
    Paired region folder contents bare (fun i j => L i j ∨ i = c.trees.size ∧ j = n')
      ((c.addTree file a).2, files) w' := by
  refine { paired with unique := ⟨?_, ?_⟩, linked := ?_, memory := fun f pastF => ?_ }
  · rintro i j k (first | ⟨new, used⟩) (second | ⟨new', used'⟩)
    · exact paired.unique.1 first second
    · exact absurd (used' ▸ first) (unlinked i)
    · exact absurd (used ▸ second) (unlinked j)
    · exact new.trans new'.symm
  · rintro i j k (first | ⟨new, used⟩) (second | ⟨new', used'⟩)
    · exact paired.unique.2 first second
    · exact absurd (paired.linked_lt first).1 (Nat.not_lt.mpr (Nat.le_of_eq new'.symm))
    · exact absurd (paired.linked_lt second).1 (Nat.not_lt.mpr (Nat.le_of_eq new.symm))
    · exact used.trans used'.symm
  · rintro i j (old | ⟨rfl, rfl⟩)
    · obtain ⟨b, left, right⟩ := paired.linked old
      exact ⟨b, getElem?_push_of_some left a, right⟩
    · exact ⟨a, Array.getElem?_push_size, tree⟩
  · show Held region bare _ w'.1.trees w'.1.memory f
        ((c.memory.insert file (some c.trees.size)).get? f) (w'.1.memory.get? f)
    rw [PathMap.get?_insert]
    split
    · rename_i same
      obtain rfl := past.eq_of_same pastF same
      rw [there]
      exact .linked (.inr ⟨rfl, rfl⟩)
    · rename_i other
      refine (paired.memory f pastF).link _ fun used => other ?_
      rw [alone f pastF used]
      exact Path.same_refl file

theorem follow {tree' : Option Nat} (there : w'.1.memory.get? file = some tree') :
    ∃ L' : Nat → Nat → Prop, (∀ i j, L i j → L' i j) ∧
      Paired region folder contents bare L' (c.get file files).2 w' ∧
      Option.Rel L' (c.get file files).1 tree' := by
  have held := paired.memory file past
  rw [there] at held
  cases known : c.memory.get? file with
  | some tree =>
    rw [get_of_held known]
    rw [show (c, files).1.memory.get? file = some tree from known] at held
    refine ⟨L, fun _ _ link => link, { paired with }, ?_⟩
    cases held with
    | failed => exact .none
    | linked link => exact .some link
  | none =>
    rw [show (c, files).1.memory.get? file = none from known] at held
    obtain rfl : files = bare := paired.files
    obtain ⟨parses, ⟨parsed, got⟩ | ⟨a, parsed, got⟩⟩ :=
      get_plain (m := ⟨fun _ => none, files⟩) paired.plain.1 paired.plain.2 known
    all_goals
      have counted : Paired region folder contents files L ({ c with parses }, files) w' := { paired with }
      have got : c.get file files = _ := got
      rw [got]
    · cases held with
      | failedAhead => exact ⟨L, fun _ _ link => link, counted.rememberBehind past there, .none⟩
      | ahead _ parsed' => exact absurd (parsed.symm.trans parsed') (by simp)
    · cases held with
      | failedAhead parsed' => exact absurd (parsed.symm.trans parsed') (by simp)
      | ahead tree parsed' unlinked alone =>
        obtain rfl := Option.some.inj (parsed.symm.trans parsed')
        exact ⟨_, fun _ _ => .inl, counted.addTreeBehind past there tree unlinked alone,
          .some (.inr ⟨rfl, rfl⟩)⟩

end

theorem get (paired : Paired region folder contents bare L (c, files) (c', files'))
    (legible : Legible contents) (past : file.Past region)
    (occurs : ∀ source, bare.read file = .ok source → (file.baseName, source) ∈ contents) :
    ∃ L' : Nat → Nat → Prop, (∀ i j, L i j → L' i j) ∧
      Paired region folder contents bare L' (c.get file files).2 (c'.get file files').2 ∧
      Option.Rel L' (c.get file files).1 (c'.get file files').1 := by
  obtain ⟨asked, there⟩ := paired.ahead legible past occurs
  exact asked.follow past there

theorem prewarm {paths : List Path} (paired : Paired region folder contents bare L w (c', files'))
    (legible : Legible contents)
    (sources : ∀ p ∈ paths, p.Past region ∧ ∀ source, bare.read p = .ok source →
      (p.baseName, source) ∈ contents) :
    Paired region folder contents bare L w (c'.prewarm paths files') := by
  unfold Cache.prewarm
  have wanted : ∀ p ∈ paths.filter (fun p => !c'.contains p), p.Past region ∧
      ∀ source, bare.read p = .ok source → (p.baseName, source) ∈ contents :=
        fun p mem => sources p (List.mem_filter.mp mem).1
  generalize paths.filter (fun p => !c'.contains p) = ps at wanted
  induction ps generalizing c' files' with
  | nil => exact paired
  | cons p ps ih =>
    obtain ⟨⟨past, occurs⟩, others⟩ := List.forall_mem_cons.mp wanted
    exact ih (paired.ahead legible past occurs).1 others

end Paired

end RubyInfer.Cache
