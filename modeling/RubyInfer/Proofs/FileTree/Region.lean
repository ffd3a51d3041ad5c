import Mathlib.Data.List.Find
import RubyInfer.Proofs.FileTree.Ordered

/-!
# Regions of a file tree

Trees that agree outside a region are the same to paths that never stand in it: such paths read the
same (`Agree.read`), and what is written or deleted by them is written or deleted in both
(`Agree.write`, `Agree.deleteFile`). Folders that are made or deleted inside the region leave the
rest as it is and bring no file with them (`Clears`). Beside the region, trees may even be the same
entry by entry (`Level`), so that what lies there is listed in the same order.
-/

namespace RubyInfer.FileTree

variable {region : List String} {t u v : FileTree} {p : Path} {names : List String}
    {paths : List Path} {wanted : Path → Bool}

structure Agree (region : List String) (t u : FileTree) : Prop where
  working : t.working = u.working
  look : ∀ names, ¬region <+: names → t.look names = u.look names

namespace Agree

theorem refl (region : List String) (t : FileTree) : Agree region t t := ⟨rfl, fun _ _ => rfl⟩

theorem symm (agree : Agree region t u) : Agree region u t :=
  ⟨agree.working.symm, fun names outside => (agree.look names outside).symm⟩

theorem trans (first : Agree region t u) (second : Agree region u v) : Agree region t v :=
  ⟨first.working.trans second.working, fun names outside =>
    (first.look names outside).trans (second.look names outside)⟩

theorem avoids (agree : Agree region t u) (avoids : t.Avoids region p) : u.Avoids region p := by
  unfold Avoids
  rw [← start_congr agree.working]
  exact avoids

section

variable (agree : Agree region t u) (avoids : t.Avoids region p)
include agree avoids

theorem stop {here : List String} (mem : here ∈ stops (t.start p) p.pieces) :
    t.look here = u.look here := agree.look here (avoids here mem)

theorem resolve : t.resolve p = u.resolve p := by
  unfold FileTree.resolve
  rw [← start_congr agree.working, foldlM_congr fun _ => agree.stop avoids]

theorem follow : t.follow p = u.follow p := by
  unfold FileTree.follow
  rw [← start_congr agree.working, foldlM_congr fun _ => agree.stop avoids]

theorem settle : t.settle p = u.settle p := by
  unfold FileTree.settle canonical
  rw [agree.follow avoids]

theorem look_resolve (leads : u.resolve p = .ok names) : t.look names = u.look names := by
  rw [place_of_resolve leads, ← place_congr agree.working]
  exact agree.stop avoids (t.place_mem_stops p)

theorem read : t.read p = u.read p := by
  rw [read_eq, read_eq, agree.resolve avoids]
  cases leads : u.resolve p with
  | error e => rfl
  | ok names =>
    dsimp only [Except.bind]
    rw [agree.look_resolve avoids leads]

theorem isFile : t.isFile p = u.isFile p := by
  rw [Bool.eq_iff_iff, isFile_iff, isFile_iff, agree.resolve avoids]
  refine exists₂_congr fun names content => and_congr_right fun leads => ?_
  rw [agree.look_resolve avoids leads]

theorem isFolder : t.isFolder p = u.isFolder p := by
  rw [Bool.eq_iff_iff, isFolder_iff, isFolder_iff, agree.resolve avoids]
  refine exists_congr fun names => and_congr_right fun leads => ?_
  rw [agree.look_resolve avoids leads]

theorem lastStep : t.lastStep p = u.lastStep p := by
  rw [lastStep_eq, lastStep_eq]
  refine congrArg (askable p).bind (funext fun _ => ?_)
  cases final : p.lastPiece? with
  | none => rfl
  | some pair =>
    obtain ⟨before, last⟩ := pair
    obtain ⟨-, blanks, pieces⟩ := Path.pieces_of_lastPiece final
    have same : ∀ here ∈ stops (t.start p) before, t.look here = u.look here := fun here mem =>
      agree.stop avoids (pieces ▸ stops_subset _ before _ mem)
    dsimp only
    rw [← start_congr agree.working, foldlM_congr same]
    cases walked : before.foldlM u.step (t.start p) with
    | error e => rfl
    | ok folder =>
      have there : t.look folder = u.look folder := by
        rw [foldl_of_foldlM walked]
        exact agree.stop avoids (pieces ▸ foldl_mem_stops _ before _)
      dsimp only [Except.bind]
      rw [there]

theorem target : t.target p = u.target p := by
  unfold FileTree.target
  rw [agree.lastStep avoids]
  cases stepped : u.lastStep p with
  | error e => rfl
  | ok pair =>
    obtain ⟨folder, _ | name⟩ := pair
    · rfl
    · dsimp only [bind, Except.bind]
      split
      · rfl
      · rename_i plain
        have leads : u.place p = folder ++ [name] := (place_of_lastStep stepped).2 (by simp_all)
        have there : t.look (folder ++ [name]) = u.look (folder ++ [name]) := by
          rw [← leads, ← place_congr agree.working]
          exact agree.stop avoids (t.place_mem_stops p)
        rw [there]

end

theorem putAt (agree : Agree region t u) (left : t.Roofed names) (right : u.Roofed names) (new : Entry) :
    Agree region (t.putAt names new) (u.putAt names new) := by
  refine ⟨agree.working, fun other outside => ?_⟩
  rw [look_putAt left, look_putAt right, agree.look other outside]

theorem removeAt (agree : Agree region t u) (names : List String) :
    Agree region (t.removeAt names) (u.removeAt names) := by
  refine ⟨agree.working, fun other outside => ?_⟩
  rw [look_removeAt, look_removeAt, agree.look other outside]

theorem write (agree : Agree region t u) (avoids : t.Avoids region p) (content : ByteArray) :
    Agree region ((t.write p content).toOption.getD t) ((u.write p content).toOption.getD u) := by
  have same := agree.target avoids
  rw [write_eq, write_eq]
  cases right : u.target p with
  | error e =>
    rw [same, right]
    exact agree
  | ok names =>
    rw [right] at same
    rw [same]
    exact agree.putAt (target_spec same).2.1 (target_spec right).2.1 _

theorem of_write (inside : region <+: t.place p) (content : ByteArray) :
    Agree region ((t.write p content).toOption.getD t) t := by
  rw [write_eq]
  cases target : t.target p with
  | error e => exact refl region t
  | ok names =>
    obtain ⟨rfl, roofed, -⟩ := target_spec target
    refine ⟨rfl, fun other outside => ?_⟩
    change (t.putAt _ _).look other = _
    rw [look_putAt roofed, if_neg fun below => outside (inside.trans below)]

theorem deleteFile (agree : Agree region t u) (avoids : t.Avoids region p) :
    Agree region ((t.deleteFile p).toOption.getD t) ((u.deleteFile p).toOption.getD u) := by
  rw [deleteFile_eq, deleteFile_eq, agree.resolve avoids]
  cases leads : u.resolve p with
  | error e => exact agree
  | ok names =>
    dsimp only [Except.bind]
    rw [agree.look_resolve avoids leads]
    split
    · exact agree.removeAt names
    · exact agree

end Agree

/-! ## Files that come and folders that stay -/

theorem working_write (t : FileTree) (p : Path) (content : ByteArray) :
    ((t.write p content).toOption.getD t).working = t.working := by
  rw [write_eq]
  cases t.target p <;> rfl

theorem working_deleteFile (t : FileTree) (p : Path) :
    ((t.deleteFile p).toOption.getD t).working = t.working := by
  cases deleted : t.deleteFile p with
  | error e => rfl
  | ok u =>
    obtain ⟨rfl, -⟩ := deleteFile_spec deleted
    rfl

theorem look_write {content found : ByteArray}
    (there : ((t.write p content).toOption.getD t).look names = some (.file found)) :
    names = t.place p ∧ found = content ∨ t.look names = some (.file found) := by
  rw [write_eq] at there
  cases target : t.target p with
  | error e =>
    rw [target] at there
    exact .inr there
  | ok place =>
    obtain ⟨rfl, roofed, -⟩ := target_spec target
    rw [target] at there
    change (t.putAt _ _).look names = _ at there
    rw [look_putAt_file roofed] at there
    grind

theorem folder_write {content : ByteArray} (there : t.look names = some .folder) :
    ((t.write p content).toOption.getD t).look names = some .folder := by
  rw [write_eq]
  cases target : t.target p with
  | error e => exact there
  | ok place =>
    obtain ⟨rfl, roofed, free⟩ := target_spec target
    have apart : ¬t.place p <+: names := fun below => free (folder_above there below)
    change (t.putAt _ _).look names = _
    rw [look_putAt roofed, if_neg apart, there]

theorem look_deleteFile {found : ByteArray}
    (there : ((t.deleteFile p).toOption.getD t).look names = some (.file found)) :
    t.look names = some (.file found) := by
  cases deleted : t.deleteFile p with
  | error e =>
    rw [deleted] at there
    exact there
  | ok u =>
    obtain ⟨rfl, -⟩ := deleteFile_spec deleted
    rw [deleted] at there
    change (t.removeAt _).look names = _ at there
    rw [look_removeAt] at there
    split at there
    · cases there
    · exact there

theorem folder_deleteFile (there : t.look names = some .folder) :
    ((t.deleteFile p).toOption.getD t).look names = some .folder := by
  cases deleted : t.deleteFile p with
  | error e => exact there
  | ok u =>
    obtain ⟨rfl, content, held⟩ := deleteFile_spec deleted
    have apart : ¬t.place p <+: names := by
      intro below
      rw [folder_above there below] at held
      cases held
    change (t.removeAt _).look names = _
    rw [look_removeAt, if_neg (fun both => apart both.2), there]

/-! ## Beside a region -/

def Apart (region names : List String) : Prop := ¬region <+: names ∧ ¬names <+: region

theorem Apart.append (apart : Apart region names) (more : List String) : ¬region <+: names ++ more := by
  intro inside
  rcases List.prefix_or_prefix_of_prefix inside (List.prefix_append names more) with under | around
  · exact apart.1 under
  · exact apart.2 around

theorem Apart.split (apart : Apart region names) :
    ∃ above name k below rest, region = above ++ name :: below ∧ names = above ++ k :: rest ∧ k ≠ name := by
  induction region generalizing names with
  | nil => exact absurd List.nil_prefix apart.1
  | cons name region ih =>
    cases names with
    | nil => exact absurd List.nil_prefix apart.2
    | cons k names =>
      by_cases same : k = name
      · subst same
        have inner : Apart region names :=
          ⟨fun inside => apart.1 (by simpa using inside), fun around =>
          apart.2 (by simpa using around)⟩
        obtain ⟨above, name, other, below, rest, rfl, rfl, differ⟩ := ih inner
        exact ⟨k :: above, name, other, below, rest, rfl, rfl, differ⟩
      · exact ⟨[], name, k, region, names, rfl, rfl, same⟩

/-- Around the region, folders have the same other entries in the same order, and where entries are
in the order of names they stay so. -/
structure Level (region : List String) (t u : FileTree) : Prop where
  beside : ∀ above name below, region = above ++ name :: below →
    (t.root.childrenAt above).filter (fun c => c.1 ≠ name) =
      (u.root.childrenAt above).filter fun c => c.1 ≠ name
  ordered : u.root.Ordered → t.root.Ordered

namespace Level

theorem refl (region : List String) (t : FileTree) : Level region t t :=
  ⟨fun _ _ _ _ => rfl, fun ordered => ordered⟩

theorem trans (first : Level region t u) (second : Level region u v) : Level region t v :=
  ⟨fun above name below split =>
    (first.beside above name below split).trans (second.beside above name below split),
    fun ordered => first.ordered (second.ordered ordered)⟩

theorem putAt (inside : region <+: names) {new : Entry} (ordered : new.Ordered) :
    Level region (t.putAt names new) t := by
  refine ⟨?_, fun before => before.put ordered names⟩
  rintro above name below rfl
  obtain ⟨rest, rfl⟩ := inside
  rw [List.append_assoc]
  exact Entry.childrenAt_put ..

theorem removeAt (inside : region <+: names) : Level region (t.removeAt names) t := by
  refine ⟨?_, fun before => before.remove names⟩
  rintro above name below rfl
  obtain ⟨rest, rfl⟩ := inside
  rw [List.append_assoc]
  exact Entry.childrenAt_remove ..

theorem write (inside : region <+: t.place p) (content : ByteArray) :
    Level region ((t.write p content).toOption.getD t) t := by
  rw [write_eq]
  cases target : t.target p with
  | error e => exact refl region t
  | ok names =>
    obtain ⟨rfl, -, -⟩ := target_spec target
    exact putAt inside (Entry.ordered_file content)

theorem find? (level : Level region t u) (apart : Apart region names) : t.find? names = u.find? names := by
  obtain ⟨above, name, k, below, rest, split, rfl, other⟩ := apart.split
  have same := congrArg (List.lookup k) (level.beside above name below split)
  rw [Entry.lookup_filter, Entry.lookup_filter, if_neg other, if_neg other] at same
  show t.root.find? _ = u.root.find? _
  rw [Entry.find?_through, Entry.find?_through, same]

theorem filter_beside (level : Level region t u) {above below : List String} {name : String}
    (split : region = above ++ name :: below) {p : String → Bool} (other : p name = false) :
    (t.root.childrenAt above).filter (fun c => p c.1) = (u.root.childrenAt above).filter fun c => p c.1 := by
  have both := congrArg (List.filter fun c => p c.1) (level.beside above name below split)
  have only (c : String × Entry) : (p c.1 && decide (c.1 ≠ name)) = p c.1 := by
    by_cases same : c.1 = name
    · simp [same, other]
    · simp [same]
  simpa only [List.filter_filter, only] using both

theorem filesIn_outside (level : Level region t u) (agree : Agree region t u)
    (left : t.root.Ordered) (right : u.root.Ordered)
    {above rest : List String} (split : region = above ++ rest) :
    (Entry.filesIn (t.root.childrenAt above)).filter (fun names => ¬rest <+: names) =
      (Entry.filesIn (u.root.childrenAt above)).filter fun names => ¬rest <+: names := by
  have none (listed : List (List String)) : listed.filter (fun names => ¬[] <+: names) = [] := by simp
  -- along the way to the region: folders on it have the same entries before and after the next name
  induction rest generalizing above with
  | nil => rw [none, none]
  | cons name rest ih =>
    have before := level.filter_beside split (p := fun n => n < name)
      (decide_eq_false (String.lt_irrefl name))
    have after := level.filter_beside split (p := fun n => name < n) (decide_eq_false (String.lt_irrefl name))
    have within : ((t.root.find? (above ++ [name])).elim [] Entry.files).filter
        (fun names => ¬rest <+: names) =
        ((u.root.find? (above ++ [name])).elim [] Entry.files).filter fun names => ¬rest <+: names := by
      by_cases last : rest = []
      · rw [last, none, none]
      · have outside : ¬region <+: above ++ [name] := by
          rintro inside
          have long := inside.length_le
          have more := List.length_pos_iff.mpr last
          simp only [split, List.length_append, List.length_cons, List.length_nil] at long
          omega
        have deeper : region = above ++ [name] ++ rest := by simpa using split
        have inner := ih deeper
        have same : t.root.look (above ++ [name]) = u.root.look (above ++ [name]) := agree.look _ outside
        unfold Entry.childrenAt at inner
        unfold Entry.look at same
        generalize t.root.find? (above ++ [name]) = e at inner same
        generalize u.root.find? (above ++ [name]) = f at inner same
        rcases e with _ | _ | _ <;> rcases f with _ | _ | _ <;> first | cases same <;> rfl | exact inner
    rw [Entry.find?_snoc, Entry.find?_snoc] at within
    have below : (fun names => decide ¬name :: rest <+: names) ∘ (name :: ·) = fun names =>
      decide ¬rest <+: names := by
      funext names
      simp
    rw [Entry.filesIn_split (left above) name, Entry.filesIn_split (right above) name, before, after]
    simp only [List.filter_append, List.filter_map, below, within]

theorem walk (level : Level region t u) (agree : Agree region t u) (avoids : t.Avoids region p)
    (apart : ¬t.place p <+: region) :
    t.walk p = u.walk p := by
  have same : t.entry? p = u.entry? p := by
    unfold entry?
    rw [agree.resolve avoids]
    cases leads : u.resolve p with
    | error e => rfl
    | ok names =>
      have names_eq : names = t.place p := (place_of_resolve leads).trans (place_congr agree.working p).symm
      exact level.find? (names_eq ▸ ⟨avoids _ (t.place_mem_stops p), apart⟩)
  unfold FileTree.walk
  rw [same]

end Level

theorem walk_eq (leads : t.resolve p = .ok names) :
    t.walk p = (Entry.filesIn (t.root.childrenAt names)).map fun rest => p.join (Path.ofPieces rest) := by
  have found : t.entry? p = t.root.find? names := by
    unfold entry?
    rw [leads]
    rfl
  unfold FileTree.walk Entry.childrenAt
  rw [found]
  rcases t.root.find? names with _ | _ | _ <;> rfl

def Hides (region : List String) (t : FileTree) (p : Path) (wanted : Path → Bool) : Prop :=
  ∀ rest content, region <+: t.place p ++ rest → t.look (t.place p ++ rest) = some (.file content) →
    wanted (p.join (Path.ofPieces rest)) = false

theorem Hides.find?_walk {rest : List String} (hides : Hides region t p wanted) (ordered : t.root.Ordered)
    (leads : t.resolve p = .ok (t.place p)) (split : region = t.place p ++ rest) :
    (t.walk p).find? wanted =
      (((Entry.filesIn (t.root.childrenAt (t.place p))).filter fun names => ¬rest <+: names).map
        fun names => p.join (Path.ofPieces names)).find? wanted := by
  rw [walk_eq leads, List.find?_map, List.find?_map, List.find?_filter]
  refine congrArg _ (List.find?_congr fun names listed => ?_)
  by_cases inside : rest <+: names
  · obtain ⟨content, there⟩ := ordered.look_of_mem_files (Entry.mem_files_of_childrenAt listed)
    have within : region <+: t.place p ++ names := split ▸ (List.prefix_append_right_inj _).mpr inside
    simp [inside, hides names content within there]
  · simp [inside]

theorem Level.find?_walk (level : Level region t u) (agree : Agree region t u)
    (ordered : u.root.Ordered) (avoids : t.Avoids region p)
    (left : Hides region t p wanted) (right : Hides region u p wanted) :
    (t.walk p).find? wanted = (u.walk p).find? wanted := by
  have place : t.place p = u.place p := place_congr agree.working p
  by_cases around : t.place p <+: region
  · obtain ⟨rest, split⟩ := around
    cases leads : u.resolve p with
    | error e =>
      unfold FileTree.walk entry?
      rw [agree.resolve avoids, leads]
    | ok names =>
      obtain rfl := place_of_resolve leads
      have leads' : t.resolve p = .ok (t.place p) := by rw [agree.resolve avoids, leads, place]
      rw [left.find?_walk (level.ordered ordered) leads' split.symm,
        level.filesIn_outside agree (level.ordered ordered) ordered split.symm,
        right.find?_walk ordered leads (place ▸ split.symm), place]
  · rw [level.walk agree avoids around]

/-! ## Changes inside a region -/

structure Clears (region : List String) (t u : FileTree) : Prop where
  agree : Agree region u t
  level : Level region u t
  files : ∀ names content, u.look names = some (.file content) → t.look names = some (.file content)

namespace Clears

theorem refl (region : List String) (t : FileTree) : Clears region t t :=
  ⟨.refl region t, .refl region t, fun _ _ there => there⟩

theorem trans (first : Clears region t u) (second : Clears region u v) : Clears region t v :=
  ⟨second.agree.trans first.agree, second.level.trans first.level,
    fun names content there => first.files names content (second.files names content there)⟩

theorem removeAt (inside : region <+: names) : Clears region t (t.removeAt names) := by
  refine ⟨⟨rfl, fun other outside => ?_⟩, .removeAt inside, fun other content there => ?_⟩
  · rw [look_removeAt, if_neg fun both => outside (inside.trans both.2)]
  · rw [look_removeAt] at there
    split at there
    · cases there
    · exact there

theorem emptyFolder (inside : region <+: names) (roofed : t.Roofed names) :
    Clears region t (t.putAt names (.folder [])) := by
  refine ⟨⟨rfl, fun other outside => ?_⟩, .putAt inside Entry.ordered_emptyFolder,
    fun other content there => ?_⟩
  · rw [look_putAt roofed, if_neg fun below => outside (inside.trans below)]
  · rw [look_putAt_emptyFolder roofed] at there
    grind

theorem deleteFolder (inside : region <+: t.place p) : Clears region t (t.deleteFolder p).1 := by
  unfold FileTree.deleteFolder
  split
  · exact refl region t
  · rename_i names leads
    obtain rfl := place_of_resolve leads
    split
    · rename_i folder
      obtain ⟨e, held, -⟩ := (Option.any_eq_true _ _).mp folder
      have roofed : t.Roofed (t.place p) := .of_look (look_eq_some.mpr ⟨e, held, rfl⟩)
      have emptied : Clears region t (t.putAt (t.place p) (.folder [])) := emptyFolder inside roofed
      dsimp only
      split
      · rename_i u deleted
        rw [deleteEmpty_spec deleted]
        exact emptied.trans (removeAt inside)
      · exact emptied
      · exact emptied
    · exact refl region t

theorem makeFolder (inside : region <+: t.place p) (made : t.makeFolder p = .ok u) : Clears region t u := by
  obtain ⟨rfl, roofed, -⟩ := makeFolder_spec made
  exact emptyFolder inside roofed

end Clears

def Paved (t : FileTree) (region : List String) (paths : List Path) : Prop :=
  ∀ p ∈ paths, region <+: t.place p ∨ t.look (t.place p) = some .folder

instance (region : List String) (t : FileTree) (paths : List Path) : Decidable (t.Paved region paths) :=
  inferInstanceAs (Decidable (∀ p ∈ paths, region <+: t.place p ∨ t.look (t.place p) = some .folder))

theorem Paved.agree (paved : t.Paved region paths) (agree : Agree region u t) : u.Paved region paths := by
  intro p mem
  rw [place_congr agree.working]
  by_cases inside : region <+: t.place p
  · exact .inl inside
  · rw [agree.look _ inside]
    exact paved p mem

theorem Paved.makeFolder (paved : t.Paved region paths) (mem : p ∈ paths)
    (made : t.makeFolder p = .ok u) : Clears region t u := by
  obtain inside | there := paved p mem
  · exact .makeFolder inside made
  · obtain ⟨-, -, free⟩ := makeFolder_spec made
    rw [free] at there
    cases there

theorem Paved.madeOr (paved : t.Paved region paths) (mem : p ∈ paths) :
    Clears region t (t.madeOr p (t.makeFolder p)).1 := by
  cases made : t.makeFolder p with
  | ok u => exact paved.makeFolder mem made
  | error e =>
    unfold FileTree.madeOr
    dsimp only
    split <;> exact .refl region t

theorem Paved.makeEach (paved : t.Paved region paths) : Clears region t (t.makeEach paths).1 := by
  induction paths with
  | nil => exact .refl region t
  | cons p outer ih =>
    have rest : Clears region t (t.makeEach outer).1 := ih fun q mem => paved q (List.mem_cons_of_mem _ mem)
    unfold FileTree.makeEach
    split
    · split
      · rename_i u made
        rw [made] at rest
        exact rest.trans ((paved.agree rest.agree).madeOr List.mem_cons_self)
      · exact rest
    · exact paved.madeOr List.mem_cons_self

theorem Paved.makeFolders (paved : t.Paved region p.withParents) :
    Clears region t (t.makeFolders p).1 := paved.makeEach

end RubyInfer.FileTree
