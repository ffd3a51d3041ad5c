import RubyInfer.Proofs.FileTree.Look

/-!
# Paths made of names

A name has no slash and is not a step. The absolute path of such names leads to them, whatever there
is (`place_ofNames`), so it is its own canonical path in every tree. The files of a folder are given
by such paths (`walk_settled`).
-/

namespace RubyInfer

namespace Path

def Proper (name : String) : Prop := name ≠ "" ∧ name ≠ "." ∧ name ≠ ".." ∧ '/' ∉ name.toList

instance : DecidablePred Proper := fun name =>
  inferInstanceAs (Decidable (name ≠ "" ∧ name ≠ "." ∧ name ≠ ".." ∧ '/' ∉ name.toList))

theorem splitSlash_intercalate {texts : List (List Char)} (some : texts ≠ [])
    (single : ∀ text ∈ texts, '/' ∉ text) :
    splitSlash (List.intercalate ['/'] texts) = texts := by
  induction texts with
  | nil => exact absurd rfl some
  | cons text texts ih =>
    obtain ⟨here, others⟩ := List.forall_mem_cons.mp single
    cases texts with
    | nil => rw [List.intercalate_singleton, splitSlash_of_notMem here]
    | cons next texts =>
      rw [List.intercalate_cons_cons, List.append_assoc, List.singleton_append, splitSlash_append,
        splitSlash_of_notMem here,
        ih (List.cons_ne_nil _ _) others]
      rfl

variable {names front back : List String}

theorem pieces_ofPieces (some : names ≠ []) (proper : ∀ name ∈ names, Proper name) :
    (ofPieces names).pieces = names := by
  have single : ∀ text ∈ names.map String.toList, '/' ∉ text := by
    intro text mem
    obtain ⟨name, named, rfl⟩ := List.mem_map.mp mem
    exact (proper name named).2.2.2
  unfold ofPieces pieces
  rw [String.toList_intercalate, show "/".toList = ['/'] from rfl,
    splitSlash_intercalate (by simpa using some) single, List.map_map]
  simp [Function.comp_def]

theorem pieces_ofNames (names : List String) : (ofNames names).pieces = "" :: (ofPieces names).pieces := by
  unfold ofNames ofPieces pieces
  rw [String.toList_append, show "/".toList = ['/'] from rfl, List.singleton_append, splitSlash, if_pos rfl]
  rfl

theorem isAbsolute_ofNames (names : List String) : (ofNames names).isAbsolute = true := by
  unfold ofNames isAbsolute
  rw [String.toList_append, show "/".toList = ['/'] from rfl]
  rfl

theorem not_absolute_ofPieces (some : names ≠ []) (proper : ∀ name ∈ names, Proper name) :
    (ofPieces names).isAbsolute = false := by
  rw [Bool.eq_false_iff]
  intro absolute
  obtain ⟨rest, text⟩ : ∃ rest, (ofPieces names).text.toList = '/' :: rest := by
    rw [isAbsolute, beq_iff_eq] at absolute
    exact List.head?_eq_some_iff.mp absolute
  have blank : "" ∈ names := by
    rw [← pieces_ofPieces some proper, pieces, text, splitSlash, if_pos rfl]
    exact List.mem_cons_self
  exact (proper "" blank).1 rfl

theorem not_endsInSlash_ofNames (some : names ≠ []) (proper : ∀ name ∈ names, Proper name) :
    (ofNames names).endsInSlash = false := by
  rw [Bool.eq_false_iff]
  intro ends
  obtain ⟨start, text⟩ := toList_of_endsInSlash ends
  have last : (ofNames names).pieces.getLast? = Option.some "" := by
    rw [pieces, text, splitSlash_append]
    simp [splitSlash]
  rw [pieces_ofNames, pieces_ofPieces some proper] at last
  have blank : "" ∈ names := by
    rw [List.getLast?_cons_of_ne_nil some] at last
    exact List.mem_of_getLast? last
  exact (proper "" blank).1 rfl

theorem join_ofPieces (inner : ∀ name ∈ front, Proper name) (some : back ≠ [])
    (proper : ∀ name ∈ back, Proper name) :
    (ofNames front).join (ofPieces back) = ofNames (front ++ back) := by
  have given : (ofNames front).text.isEmpty = false := by simp [ofNames]
  unfold join
  rw [not_absolute_ofPieces some proper, given, if_neg Bool.false_ne_true, if_neg Bool.false_ne_true]
  by_cases root : front = []
  · subst root
    rfl
  · rw [not_endsInSlash_ofNames root inner, if_neg Bool.false_ne_true]
    unfold ofNames ofPieces
    rw [String.intercalate_append_of_ne_nil root some]
    simp only [String.append_assoc]

end Path

namespace Entry

theorem mem_filesIn {children : List (String × Entry)} {names : List String} :
    names ∈ filesIn children ↔ ∃ child ∈ children, ∃ rest ∈ child.2.files, names = child.1 :: rest := by
  induction children with
  | nil => simp [filesIn]
  | cons child children ih =>
    rw [filesIn, List.mem_append, List.mem_map, ih]
    simp [eq_comm]

theorem files_of_find? {e f : Entry} {above names : List String} (found : e.find? above = some f)
    (below : names ∈ f.files) :
    above ++ names ∈ e.files := by
  induction above generalizing e with
  | nil =>
    cases found
    exact below
  | cons name above ih =>
    obtain ⟨child, there, inside⟩ := Option.bind_eq_some_iff.mp found
    cases e with
    | file content => cases there
    | folder children =>
      obtain ⟨before, after, rfl, -⟩ := List.lookup_eq_some_iff.mp there
      exact mem_filesIn.mpr ⟨(name, child), by simp, _, ih inside, rfl⟩

end Entry

namespace FileTree

open RubyInfer.Path

variable {t : FileTree} {p : Path} {names : List String}

def Named (t : FileTree) : Prop := (∀ name ∈ t.working, Proper name) ∧ ∀ names ∈ t.root.files,
    ∀ name ∈ names, Proper name

instance (t : FileTree) : Decidable t.Named :=
  inferInstanceAs (Decidable ((∀ name ∈ t.working, Proper name) ∧ ∀ names ∈ t.root.files,
    ∀ name ∈ names, Proper name))

theorem foldl_stride (proper : ∀ name ∈ names, Proper name) (here : List String) :
    names.foldl stride here = here ++ names := by
  induction names generalizing here with
  | nil => simp
  | cons name names ih =>
    obtain ⟨⟨blank, dot, dots, -⟩, others⟩ := List.forall_mem_cons.mp proper
    have step : stride here name = here ++ [name] := by simp [stride, blank, dot, dots]
    rw [List.foldl_cons, step, ih others, List.append_assoc, List.singleton_append]

theorem place_ofNames (t : FileTree) (proper : ∀ name ∈ names, Proper name) :
    t.place (ofNames names) = names := by
  unfold place start
  rw [isAbsolute_ofNames, if_pos rfl, pieces_ofNames]
  by_cases root : names = []
  · subst root
    rfl
  · rw [pieces_ofPieces root proper, List.foldl_cons, show stride [] "" = [] from rfl, foldl_stride proper]
    rfl

theorem place_of_follow (leads : t.follow p = .ok names) : names = t.place p := by
  unfold follow at leads
  split at leads
  · cases leads
  · split at leads
    · cases leads
    · exact foldl_of_foldlM leads

theorem settle_ofNames (t : FileTree) (proper : ∀ name ∈ names, Proper name) :
    t.settle (ofNames names) = ofNames names := by
  unfold settle canonical
  cases leads : t.follow (ofNames names) with
  | error e => rfl
  | ok found =>
    rw [place_of_follow leads, place_ofNames t proper]
    rfl

theorem proper_place (proper : ∀ name ∈ t.working, Proper name) (p : Path) :
    ∀ name ∈ t.place p, Proper name := by
  have start : ∀ name ∈ t.start p, Proper name := by
    unfold start
    split
    · exact fun name mem => absurd mem List.not_mem_nil
    · exact proper
  have single : ∀ piece ∈ p.pieces, '/' ∉ piece.toList := fun piece => notMem_of_mem_pieces
  unfold place
  generalize t.start p = here at start
  generalize p.pieces = pieces at single
  induction pieces generalizing here with
  | nil => exact start
  | cons piece pieces ih =>
    obtain ⟨plain, others⟩ := List.forall_mem_cons.mp single
    refine ih _ ?_ others
    unfold stride
    split
    · exact start
    · rename_i given
      split
      · exact fun name mem => start name (List.dropLast_subset here mem)
      · rename_i inner
        rw [List.forall_mem_append]
        exact ⟨start, by simpa [Proper] using ⟨fun blank => given (.inl blank),
          fun dot => given (.inr dot), inner, plain⟩⟩

theorem canonical_eq {top : Path} (there : t.canonical p = .ok top) : top = ofNames (t.place p) := by
  unfold canonical at there
  cases leads : t.follow p with
  | error e =>
    rw [leads] at there
    cases there
  | ok names =>
    rw [leads] at there
    cases there
    rw [place_of_follow leads]

theorem ofNames_of_canonical {top : Path} (proper : ∀ name ∈ t.working, Proper name)
    (there : t.canonical p = .ok top) :
    ∃ names, top = ofNames names ∧ ∀ name ∈ names, Proper name :=
      ⟨_, canonical_eq there, proper_place proper p⟩

theorem walk_settled (named : t.Named) (proper : ∀ name ∈ names, Proper name) {file : Path}
    (mem : file ∈ t.walk (ofNames names)) (u : FileTree) : u.settle file = file := by
  unfold walk entry? at mem
  cases leads : t.resolve (ofNames names) with
  | error e =>
    rw [leads] at mem
    cases mem
  | ok found =>
    obtain rfl : found = names := (place_of_resolve leads).trans (place_ofNames t proper)
    rw [leads] at mem
    dsimp only at mem
    split at mem
    · rename_i children held
      obtain ⟨rest, below, rfl⟩ := List.mem_map.mp mem
      have inside : ∀ name ∈ rest, Proper name := fun name here =>
        named.2 _ (Entry.files_of_find? held below) name (List.mem_append_right _ here)
      have some : rest ≠ [] := by
        obtain ⟨child, -, rest, -, rfl⟩ := Entry.mem_filesIn.mp below
        exact List.cons_ne_nil _ _
      rw [join_ofPieces proper some inside]
      exact settle_ofNames u (List.forall_mem_append.mpr ⟨proper, inside⟩)
    · cases mem

end FileTree

end RubyInfer
