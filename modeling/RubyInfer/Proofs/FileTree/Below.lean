import RubyInfer.Proofs.FileTree.Names
import RubyInfer.Proofs.FileTree.Region

/-!
# Files below a folder

A file that is listed below a folder can be followed to, if names are such as the system allows
(`follow_of_mem_walk`), and its path stays beside a region if the folder does
(`avoids_of_mem_walk`). So wherever files are looked for, they are found as canonical paths, and a
canonical path is told by its parts.
-/

namespace RubyInfer

namespace Path

variable {names other : List String} {p q : Path}

theorem parts_ofNames (proper : ∀ name ∈ names, Proper name) : (ofNames names).parts = ⟨true, names⟩ := by
  have kept : names.filter isName = names := by
    rw [List.filter_eq_self]
    intro name mem
    obtain ⟨blank, dot, -, -⟩ := proper name mem
    simp [isName, blank, dot]
  unfold parts
  rw [isAbsolute_ofNames, if_pos rfl, pieces_ofNames]
  by_cases root : names = []
  · subst root
    rfl
  · rw [pieces_ofPieces root proper, List.filter_cons_of_neg (by decide), kept]

theorem mem_intercalate {c : Char} {texts : List (List Char)} (mem : c ∈ List.intercalate ['/'] texts) :
    c = '/' ∨ ∃ text ∈ texts, c ∈ text := by
  induction texts with
  | nil => simp at mem
  | cons text texts ih =>
    cases texts with
    | nil => exact .inr ⟨text, List.mem_cons_self, by simpa using mem⟩
    | cons next texts =>
      rw [List.intercalate_cons_cons, List.append_assoc, List.mem_append, List.singleton_append,
        List.mem_cons] at mem
      rcases mem with here | slash | later
      · exact .inr ⟨text, List.mem_cons_self, here⟩
      · exact .inl slash
      · rcases ih later with slash | ⟨other, inside, here⟩
        · exact .inl slash
        · exact .inr ⟨other, List.mem_cons_of_mem _ inside, here⟩

theorem mem_text_join {c : Char} (mem : c ∈ (p.join q).text.toList) :
    c = '/' ∨ c ∈ p.text.toList ∨ c ∈ q.text.toList := by
  unfold join at mem
  split at mem
  · exact .inr (.inr mem)
  · split at mem
    · exact .inr (.inr mem)
    · split at mem
      · exact .inr (by simpa using mem)
      · rw [← or_assoc, or_comm (a := c = '/'), or_assoc]
        simpa using mem

theorem isEmpty_join (given : p.text.isEmpty = false) (relative : q.isAbsolute = false) :
    (p.join q).text.isEmpty = false := by
  have some : p.text ≠ "" := by simpa using given
  unfold join
  rw [relative, given, if_neg Bool.false_ne_true, if_neg Bool.false_ne_true]
  split <;> simp [some]

theorem getLast?_parts {p : Path} {before : List String} {last : String}
    (split : p.pieces = before ++ [last]) (named : isName last = true) :
    p.parts.names.getLast? = some last := by
  unfold parts
  split
  · simp [split, List.filter_append, named]
  · split
    · rename_i rest dot
      rw [split] at dot
      cases before with
      | nil =>
        obtain ⟨rfl, -⟩ := List.cons.inj dot
        cases named
      | cons first before =>
        obtain ⟨-, rfl⟩ := List.cons.inj dot
        simp [List.filter_append, named, List.getLast?_cons]
    · simp [split, List.filter_append, named]

theorem getLast?_of_endsIn {p tail : Path} {last : String} (ends : p.endsIn tail = true)
    (found : tail.parts.names.getLast? = some last) :
    p.parts.names.getLast? = some last := by
  obtain ⟨before, whole⟩ := List.isSuffixOf_iff_suffix.mp ends
  rw [← whole, List.getLast?_append, found]
  rfl

def Past (region : List String) (p : Path) : Prop := ∃ names, p = ofNames names ∧
    (∀ name ∈ names, Proper name) ∧ ¬region <+: names

theorem Past.eq_of_same {region : List String} (left : p.Past region) (right : q.Past region)
    (same : p.same q = true) : p = q := by
  obtain ⟨names, rfl, proper, -⟩ := left
  obtain ⟨others, rfl, proper', -⟩ := right
  rw [same_iff, parts_ofNames proper, parts_ofNames proper', Parts.mk.injEq] at same
  rw [same.2]

end Path

namespace FileTree

open RubyInfer.Path

variable {t u : FileTree} {p d file : Path} {region names : List String}

/-! ## Stops -/

theorem mem_stops_append {here stop before after : List String} (mem : stop ∈ stops here (before ++ after)) :
    stop ∈ stops here before ∨ stop ∈ stops (before.foldl stride here) after := by
  induction before generalizing here with
  | nil => exact .inr mem
  | cons piece before ih =>
    rcases List.mem_cons.mp mem with rfl | later
    · exact .inl List.mem_cons_self
    · exact (ih later).imp_left (List.mem_cons_of_mem _)

theorem mem_stops_names (proper : ∀ name ∈ names, Proper name) {here stop : List String}
    (mem : stop ∈ stops here names) :
    ∃ front, front <+: names ∧ stop = here ++ front := by
  induction names generalizing here with
  | nil => exact ⟨[], List.prefix_rfl, by simpa using List.mem_singleton.mp mem⟩
  | cons name names ih =>
    obtain ⟨⟨blank, dot, dots, -⟩, others⟩ := List.forall_mem_cons.mp proper
    have step : stride here name = here ++ [name] := by simp [stride, blank, dot, dots]
    rcases List.mem_cons.mp mem with rfl | later
    · exact ⟨[], List.nil_prefix, (List.append_nil _).symm⟩
    · rw [step] at later
      obtain ⟨front, within, rfl⟩ := ih others later
      exact ⟨name :: front, by simpa using within, by simp⟩

theorem avoids_of_past (past : p.Past region) (t : FileTree) : t.Avoids region p := by
  obtain ⟨names, rfl, proper, outside⟩ := past
  intro stop mem inside
  unfold start at mem
  rw [isAbsolute_ofNames, if_pos rfl, pieces_ofNames] at mem
  have above : stop <+: names := by
    rcases List.mem_cons.mp mem with rfl | later
    · exact List.nil_prefix
    · have blank : stride [] "" = [] := rfl
      rw [blank] at later
      by_cases root : names = []
      · subst root
        have only : stop = [] := by simpa [ofPieces, pieces, splitSlash, stops, stride] using later
        exact only ▸ List.nil_prefix
      · rw [pieces_ofPieces root proper] at later
        obtain ⟨front, within, rfl⟩ := mem_stops_names proper later
        exact within
  exact outside (inside.trans above)

theorem settle_of_past (past : p.Past region) (t : FileTree) : t.settle p = p := by
  obtain ⟨names, rfl, proper, -⟩ := past
  exact t.settle_ofNames proper

/-! ## Canonical paths -/

theorem resolve_spec (leads : t.resolve p = .ok names) :
    '\x00' ∉ p.text.toList ∧ p.text.isEmpty = false ∧ p.pieces.foldlM t.step (t.start p) = .ok names := by
  unfold resolve askable at leads
  split at leads
  · cases leads
  · rename_i plain
    split at leads
    · cases leads
    · split at leads
      · cases leads
      · rename_i given
        exact ⟨by simpa using plain, by simpa using given, leads⟩

theorem follow_eq (plain : '\x00' ∉ p.text.toList) (given : p.text.isEmpty = false) :
    t.follow p = p.pieces.foldlM t.step (t.start p) := by
  unfold follow
  rw [if_neg (by simpa using plain), if_neg (by simpa using given)]

theorem follow_of_resolve (leads : t.resolve p = .ok names) : t.follow p = .ok names := by
  obtain ⟨plain, given, walked⟩ := resolve_spec leads
  rw [follow_eq plain given, walked]

theorem past_settle (proper : ∀ name ∈ t.working, Proper name) (avoids : t.Avoids region p)
    (leads : t.follow p = .ok names) :
    (t.settle p).Past region := by
  have settled : t.settle p = ofNames names := by
    unfold FileTree.settle canonical
    rw [leads]
    rfl
  rw [settled, place_of_follow leads]
  exact ⟨t.place p, rfl, proper_place proper p, avoids _ (t.place_mem_stops p)⟩

/-! ## Listed files -/

def Usable (name : String) : Prop := name.utf8ByteSize ≤ maxNameBytes ∧ '\x00' ∉ name.toList

instance : DecidablePred Usable :=
  fun name => inferInstanceAs (Decidable (name.utf8ByteSize ≤ maxNameBytes ∧ '\x00' ∉ name.toList))

def Accessible (t : FileTree) : Prop := ∀ names ∈ t.root.files, ∀ name ∈ names, Usable name

instance (t : FileTree) : Decidable t.Accessible :=
  inferInstanceAs (Decidable (∀ names ∈ t.root.files, ∀ name ∈ names, Usable name))

theorem mem_walk (mem : file ∈ t.walk d) :
    ∃ rest, rest ≠ [] ∧ t.resolve d = .ok (t.place d) ∧ t.place d ++ rest ∈ t.root.files ∧
      file = d.join (ofPieces rest) := by
  unfold walk entry? at mem
  cases leads : t.resolve d with
  | error e =>
    rw [leads] at mem
    cases mem
  | ok found =>
    obtain rfl := place_of_resolve leads
    rw [leads] at mem
    dsimp only at mem
    split at mem
    · rename_i children held
      obtain ⟨rest, below, rfl⟩ := List.mem_map.mp mem
      refine ⟨rest, ?_, rfl, Entry.files_of_find? held below, rfl⟩
      obtain ⟨child, -, rest, -, rfl⟩ := Entry.mem_filesIn.mp below
      exact List.cons_ne_nil _ _
    · cases mem

theorem foldlM_front {front : List String} (split : d.pieces = front ∨ d.pieces = front ++ [""])
    (leads : t.resolve d = .ok names) :
    front.foldlM t.step (t.start d) = .ok names := by
  obtain ⟨-, -, walked⟩ := resolve_spec leads
  rcases split with same | same
  · rwa [same] at walked
  · rw [same, List.foldlM_append] at walked
    cases first : front.foldlM t.step (t.start d) with
    | error e =>
      rw [first] at walked
      cases walked
    | ok here =>
      rw [first] at walked
      change t.step here "" >>= pure = _ at walked
      rw [bind_pure] at walked
      rw [stride_of_step walked]
      rfl

theorem foldlM_names {here rest : List String} (proper : ∀ name ∈ rest, Proper name)
    (usable : ∀ name ∈ rest, Usable name)
    (there : (t.look (here ++ rest)).isSome) : rest.foldlM t.step here = .ok (here ++ rest) := by
  induction rest generalizing here with
  | nil => simp [pure, Except.pure]
  | cons name rest ih =>
    obtain ⟨⟨blank, dot, dots, -⟩, others⟩ := List.forall_mem_cons.mp proper
    obtain ⟨⟨short, -⟩, usables⟩ := List.forall_mem_cons.mp usable
    obtain ⟨shape, found⟩ := Option.isSome_iff_exists.mp there
    have folder : t.look here = some .folder := by
      refine Entry.look_above found (List.prefix_append ..) fun same => ?_
      simp at same
    have next : (t.look (here ++ [name])).isSome := by
      by_cases last : rest = []
      · subst last
        exact there
      · rw [List.append_cons] at found
        have around : t.look (here ++ [name]) = some .folder := by
          refine Entry.look_above found (List.prefix_append ..) fun same => last ?_
          simpa using same
        rw [around]
        rfl
    have step : t.step here name = .ok (here ++ [name]) := by
      rw [step_eq, folder]
      simp [blank, dot, dots, next, Nat.not_lt.mpr short]
    have again : here ++ name :: rest = here ++ [name] ++ rest := List.append_cons ..
    rw [again] at there ⊢
    rw [List.foldlM_cons, step]
    exact ih others usables there

theorem follow_of_mem_walk (named : t.Named) (ordered : t.root.Ordered) (accessible : t.Accessible)
    (mem : file ∈ t.walk d) :
    ∃ names, t.follow file = .ok names := by
  obtain ⟨rest, some, leads, listed, rfl⟩ := mem_walk mem
  obtain ⟨content, there⟩ := ordered.look_of_mem_files listed
  have inner : ∀ name ∈ rest, Proper name :=
    fun name here => named.2 _ listed name (List.mem_append_right _ here)
  have usable : ∀ name ∈ rest, Usable name :=
    fun name here => accessible _ listed name (List.mem_append_right _ here)
  have relative := not_absolute_ofPieces some inner
  obtain ⟨absolute, front, split, joined⟩ := join_relative (p := d) relative
  obtain ⟨plain, given, -⟩ := resolve_spec leads
  have start : t.start (d.join (ofPieces rest)) = t.start d := by
    unfold start
    rw [absolute]
  have clean : '\x00' ∉ (d.join (ofPieces rest)).text.toList := by
    intro mem
    rcases mem_text_join mem with slash | outer | below
    · cases slash
    · exact plain outer
    · rw [ofPieces, String.toList_intercalate] at below
      rcases mem_intercalate below with slash | ⟨text, inside, here⟩
      · cases slash
      · obtain ⟨name, listed, rfl⟩ := List.mem_map.mp inside
        exact (usable name listed).2 here
  refine ⟨t.place d ++ rest, ?_⟩
  rw [follow_eq clean (isEmpty_join given relative), start, joined, pieces_ofPieces some inner,
    List.foldlM_append, foldlM_front split leads]
  exact foldlM_names inner usable (by rw [FileTree.look, there]; rfl)

theorem avoids_below {rest : List String} (avoids : t.Avoids region d)
    (leads : t.resolve d = .ok (t.place d)) (some : rest ≠ [])
    (inner : ∀ name ∈ rest, Proper name) (outside : ¬region <+: t.place d ++ rest) :
    t.Avoids region (d.join (ofPieces rest)) := by
  obtain ⟨absolute, front, split, joined⟩ := join_relative (p := d) (not_absolute_ofPieces some inner)
  have start : t.start (d.join (ofPieces rest)) = t.start d := by
    unfold start
    rw [absolute]
  have home : front.foldl stride (t.start d) = t.place d := (foldl_of_foldlM (foldlM_front split leads)).symm
  intro stop mem inside
  rw [start, joined, pieces_ofPieces some inner] at mem
  rcases mem_stops_append mem with outer | below
  · refine avoids stop ?_ inside
    rcases split with same | same
    · exact same ▸ outer
    · exact same ▸ stops_subset _ _ _ outer
  · rw [home] at below
    obtain ⟨more, within, rfl⟩ := mem_stops_names inner below
    exact outside (inside.trans ((List.prefix_append_right_inj _).mpr within))

end FileTree

end RubyInfer
