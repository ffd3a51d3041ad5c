import RubyInfer.FileTree
import RubyInfer.Proofs.Path.Pieces

/-!
# What is found in a file tree

A tree is looked at place by place: there is nothing, a folder, or a file with its content. A step
along a path asks only what there is where it begins and where it leads (`step_eq`), and the place
where a path leads can be told from its pieces (`place`). What each operation does is said by what
it looks at and by the place that it changes.
-/

namespace RubyInfer

inductive Shape
  | folder
  | file (content : ByteArray)

instance (found : Option Shape) : Decidable (found = some .folder) :=
  match found with
  | some .folder => isTrue rfl
  | some (.file _) => isFalse (by simp)
  | none => isFalse (by simp)

namespace Entry

variable {names : List String} {e : Entry}

def shape : Entry → Shape
  | .file content => .file content
  | .folder _ => .folder

def look (e : Entry) (names : List String) : Option Shape := (e.find? names).map shape

theorem find?_append (e : Entry) (above below : List String) :
    e.find? (above ++ below) = (e.find? above).bind (·.find? below) := by
  induction above generalizing e with
  | nil => rfl
  | cons name above ih =>
    rw [List.cons_append, find?, find?, Option.bind_assoc]
    exact congrArg _ (funext fun child => ih child)

theorem look_nil (e : Entry) : e.look [] = some e.shape := by
  cases e <;> rfl

theorem look_cons (e : Entry) (name : String) (names : List String) :
    e.look (name :: names) = (e.child? name).bind (·.look names) := by
  unfold look
  rw [find?, Option.map_bind]
  rfl

theorem look_file_cons (content : ByteArray) (name : String) (names : List String) :
    (file content).look (name :: names) = none := rfl

theorem look_folder_cons (children : List (String × Entry)) (name : String) (names : List String) :
    (folder children).look (name :: names) = (children.lookup name).bind (·.look names) := look_cons ..

theorem look_emptyFolder (names : List String) :
    (folder []).look names = if names = [] then some .folder else none := by
  cases names <;> rfl

theorem look_file (content : ByteArray) (names : List String) :
    (file content).look names = if names = [] then some (.file content) else none := by
  cases names <;> rfl

theorem folder_of_look_cons {name : String} {shape : Shape} (found : e.look (name :: names) = some shape) :
    ∃ children child, e = .folder children ∧ children.lookup name = some child ∧
      child.look names = some shape := by
  cases e with
  | file content => cases found
  | folder children =>
    rw [look_folder_cons] at found
    obtain ⟨child, there, below⟩ := Option.bind_eq_some_iff.mp found
    exact ⟨children, child, rfl, there, below⟩

theorem folder_of_look_nil (found : e.look [] = some .folder) : ∃ children, e = .folder children := by
  cases e with
  | file content => cases found
  | folder children => exact ⟨children, rfl⟩

theorem look_above {above names : List String} {shape : Shape} (found : e.look names = some shape)
    (below : above <+: names) (proper : above ≠ names) : e.look above = some .folder := by
  induction above generalizing e names with
  | nil =>
    cases names with
    | nil => exact absurd rfl proper
    | cons name names =>
      obtain ⟨children, -, rfl, -, -⟩ := folder_of_look_cons found
      rfl
  | cons name above ih =>
    obtain ⟨rest, rfl⟩ := below
    obtain ⟨children, child, rfl, there, found⟩ := folder_of_look_cons found
    rw [look_folder_cons, there, Option.bind_some]
    exact ih found (List.prefix_append ..) (by simpa using proper)

theorem lookup_cons (n : String) (e : Entry) (children : List (String × Entry)) (k : String) :
    List.lookup k ((n, e) :: children) = if k = n then some e else children.lookup k := by
  by_cases same : k = n
  · simp [same]
  · rw [List.lookup_cons, beq_false_of_ne same, if_neg same]

theorem lookup_setChild (name : String) (e : Entry) (children : List (String × Entry)) (k : String) :
    (setChild name e children).lookup k = if k = name then some e else children.lookup k := by
  induction children with
  | nil => exact lookup_cons ..
  | cons first rest ih =>
    obtain ⟨n, old⟩ := first
    unfold setChild
    split
    · grind [lookup_cons]
    · split
      · rw [lookup_cons]
      · rw [lookup_cons, lookup_cons, ih]
        grind

theorem lookup_filter (name : String) (children : List (String × Entry)) (k : String) :
    (children.filter fun c => c.1 ≠ name).lookup k = if k = name then none else children.lookup k := by
  induction children with
  | nil => simp
  | cons first rest ih =>
    obtain ⟨n, old⟩ := first
    by_cases gone : n = name
    · rw [List.filter_cons_of_neg (by simpa using gone), ih, lookup_cons]
      grind
    · rw [List.filter_cons_of_pos (by simpa using gone), lookup_cons, ih, lookup_cons]
      grind

theorem look_setChild (name : String) (e : Entry) (children : List (String × Entry)) (k : String)
    (place : List String) :
    (folder (setChild name e children)).look (k :: place) = if k = name then e.look place else
      (folder children).look (k :: place) := by
  rw [look_folder_cons, look_folder_cons, lookup_setChild]
  split <;> rfl

theorem roofed_cons {name : String} (home : e.look (name :: names).dropLast = some .folder) :
    ∃ children, e = .folder children ∧
      (names = [] ∨ ∃ child, children.lookup name = some child ∧
      child.look names.dropLast = some .folder) := by
  cases names with
  | nil =>
    obtain ⟨children, rfl⟩ := folder_of_look_nil home
    exact ⟨children, rfl, .inl rfl⟩
  | cons next names =>
    obtain ⟨children, child, rfl, there, below⟩ := folder_of_look_cons home
    exact ⟨children, rfl, .inr ⟨child, there, below⟩⟩

theorem look_put (home : names = [] ∨ e.look names.dropLast = some .folder) (new : Entry)
    (place : List String) :
    (put new e names).look place = if names <+: place then new.look (place.drop names.length) else
      e.look place := by
  induction names generalizing e place with
  | nil => simp [put]
  | cons name names ih =>
    obtain ⟨children, rfl, inside⟩ := roofed_cons (home.resolve_left (List.cons_ne_nil name names))
    cases place with
    | nil => simp [put, look_nil, shape]
    | cons k place =>
      rw [put, look_setChild]
      by_cases here : k = name
      · subst here
        simp only [if_true, List.cons_prefix_cons, true_and, List.length_cons, List.drop_succ_cons]
        -- Only the last step may lead to a place that is not there yet.
        obtain rfl | ⟨child, there, below⟩ := inside
        · simp [put]
        · rw [look_folder_cons, there]
          exact ih (.inr below) place
      · simp [here, Ne.symm here]

theorem look_remove (inner : names ≠ []) (place : List String) :
    (e.remove names).look place = if names <+: place then none else e.look place := by
  fun_induction remove e names generalizing place with
  | case1 => exact absurd rfl inner
  | case2 content names =>
    cases place with
    | nil => simp [inner]
    | cons k place => simp [look_file_cons]
  | case3 children name =>
    cases place with
    | nil => simp [look_nil, shape]
    | cons k place =>
      rw [look_folder_cons, lookup_filter, look_folder_cons]
      by_cases here : k = name
      · simp [here]
      · simp [here, Ne.symm here]
  | case4 children name names last child there ih =>
    cases place with
    | nil => simp [look_nil, shape]
    | cons k place =>
      rw [look_setChild]
      by_cases here : k = name
      · subst here
        simp only [if_true, List.cons_prefix_cons, true_and, look_folder_cons, there, Option.bind_some]
        exact ih last place
      · simp [here, Ne.symm here]
  | case5 children name names last missing =>
    split
    · rename_i below
      obtain ⟨rest, rfl⟩ := below
      rw [List.cons_append, look_folder_cons, missing, Option.bind_none]
    · rfl

end Entry

namespace FileTree

variable {names : List String}

def look (t : FileTree) (names : List String) : Option Shape := t.root.look names

/-! ## Walks -/

def stride (here : List String) (piece : String) : List String :=
  if piece = "" ∨ piece = "." then here
  else if piece = ".." then here.dropLast
  else here ++ [piece]

def stops (here : List String) : List String → List (List String)
  | [] => [here]
  | piece :: pieces => here :: stops (stride here piece) pieces

def place (t : FileTree) (p : Path) : List String := p.pieces.foldl stride (t.start p)

def Avoids (t : FileTree) (region : List String) (p : Path) : Prop :=
  ∀ here ∈ stops (t.start p) p.pieces, ¬region <+: here

instance (t : FileTree) (region : List String) (p : Path) : Decidable (t.Avoids region p) :=
  inferInstanceAs (Decidable (∀ here ∈ stops (t.start p) p.pieces, ¬region <+: here))

theorem start_congr {t u : FileTree} (working : t.working = u.working) (p : Path) :
    t.start p = u.start p := by
  unfold start
  rw [working]

theorem place_congr {t u : FileTree} (working : t.working = u.working) (p : Path) :
    t.place p = u.place p := by
  unfold place
  rw [start_congr working]

theorem head_mem_stops (here : List String) (pieces : List String) : here ∈ stops here pieces := by
  cases pieces <;> exact List.mem_cons_self

theorem foldl_mem_stops (here : List String) (before after : List String) :
    before.foldl stride here ∈ stops here (before ++ after) := by
  induction before generalizing here with
  | nil => exact head_mem_stops here after
  | cons piece before ih => exact List.mem_cons_of_mem _ (ih _)

theorem stops_subset (here : List String) (before after : List String) :
    stops here before ⊆ stops here (before ++ after) := by
  induction before generalizing here with
  | nil =>
    intro stop mem
    rw [List.mem_singleton.mp mem]
    exact head_mem_stops here after
  | cons piece before ih => exact List.cons_subset_cons here (ih _)

theorem foldl_blanks (here : List String) (blanks : Nat) :
    (List.replicate blanks "").foldl stride here = here := by
  induction blanks with
  | zero => rfl
  | succ blanks ih => simpa [List.replicate_succ, stride] using ih

variable {t u : FileTree} {p : Path} {here there : List String} {piece : String}

theorem look_eq_map (t : FileTree) (names : List String) :
    t.look names = (t.find? names).map Entry.shape := rfl

theorem look_append (t : FileTree) (here : List String) (name : String) :
    t.look (here ++ [name]) = (t.find? here).bind fun e => (e.child? name).map Entry.shape := by
  have below (e : Entry) : e.find? [name] = e.child? name := Option.bind_fun_some _
  rw [look_eq_map, find?, Entry.find?_append, Option.map_bind]
  exact congrArg _ (funext fun e => congrArg _ (below e))

theorem look_eq_some {shape : Shape} : t.look names = some shape ↔ ∃ e, t.find? names = some e ∧
    e.shape = shape := Option.map_eq_some_iff

theorem look_eq_none : t.look names = none ↔ t.find? names = none := Option.map_eq_none_iff

theorem folder_above {above names : List String} (there : t.look names = some .folder)
    (below : above <+: names) :
    t.look above = some .folder := by
  by_cases same : above = names
  · exact same ▸ there
  · exact Entry.look_above there below same

theorem step_eq (t : FileTree) (here : List String) (piece : String) :
    t.step here piece =
      match t.look here with
      | some .folder =>
        if piece = "" ∨ piece = "." then .ok here
        else if piece = ".." then .ok here.dropLast
        else if maxNameBytes < piece.utf8ByteSize then .error .nameTooLong
        else if (t.look (here ++ [piece])).isSome then .ok (here ++ [piece])
        else .error .notFound
      | some (.file _) => .error .notFolder
      | none => .error .notFound := by
  unfold step
  rw [look_append, look_eq_map]
  cases t.find? here with
  | none => rfl
  | some e =>
    cases e with
    | file content => rfl
    | folder children => simp only [Entry.shape, Entry.child?, Option.map_some, Option.bind_some,
        Option.isSome_map]

theorem stride_of_step (taken : t.step here piece = .ok there) : there = stride here piece := by
  rw [step_eq] at taken
  unfold stride
  split at taken
  · grind
  · cases taken
  · cases taken

theorem step_congr (begins : t.look here = u.look here)
    (leads : t.look (stride here piece) = u.look (stride here piece)) :
    t.step here piece = u.step here piece := by
  rw [step_eq, step_eq, begins]
  unfold stride at leads
  grind

theorem foldl_of_foldlM {pieces : List String} (walked : pieces.foldlM t.step here = .ok there) :
    there = pieces.foldl stride here := by
  induction pieces generalizing here with
  | nil => exact (Except.ok.inj walked).symm
  | cons piece pieces ih =>
    rw [List.foldlM_cons] at walked
    cases taken : t.step here piece with
    | error e =>
      rw [taken] at walked
      cases walked
    | ok next =>
      rw [taken] at walked
      rw [List.foldl_cons, ← stride_of_step taken]
      exact ih walked

theorem foldlM_congr {pieces : List String} (same : ∀ stop ∈ stops here pieces, t.look stop = u.look stop) :
    pieces.foldlM t.step here = pieces.foldlM u.step here := by
  induction pieces generalizing here with
  | nil => rfl
  | cons piece pieces ih =>
    have begins := same here List.mem_cons_self
    have leads := same _ (List.mem_cons_of_mem _ (head_mem_stops (stride here piece) pieces))
    rw [List.foldlM_cons, List.foldlM_cons, step_congr begins leads]
    cases taken : u.step here piece with
    | error e => rfl
    | ok next =>
      rw [stride_of_step taken]
      exact ih fun stop mem => same stop (List.mem_cons_of_mem _ mem)

theorem place_of_resolve (leads : t.resolve p = .ok names) : names = t.place p := by
  unfold resolve at leads
  cases asked : askable p with
  | error e =>
    rw [asked] at leads
    cases leads
  | ok _ =>
    rw [asked] at leads
    exact foldl_of_foldlM leads

theorem read_eq (t : FileTree) (p : Path) :
    t.read p = (t.resolve p).bind fun names =>
      match t.look names with
      | some (.file content) => .ok content
      | some .folder => .error .isFolder
      | none => .error .notFound := by
  unfold read
  refine congrArg (t.resolve p).bind (funext fun names => ?_)
  rw [look_eq_map]
  cases t.find? names with
  | none => rfl
  | some e => cases e <;> rfl

theorem isFile_iff : t.isFile p = true ↔ ∃ names content, t.resolve p = .ok names ∧
    t.look names = some (.file content) := by
  unfold isFile entry?
  cases t.resolve p with
  | error e => simp
  | ok names =>
    simp only [look_eq_map]
    cases held : t.find? names with
    | none => simp [held]
    | some e => cases e <;> simp [held, Entry.shape]

theorem isFolder_iff :
    t.isFolder p = true ↔ ∃ names, t.resolve p = .ok names ∧ t.look names = some .folder := by
  unfold isFolder entry?
  cases t.resolve p with
  | error e => simp
  | ok names =>
    simp only [look_eq_map]
    cases held : t.find? names with
    | none => simp [held]
    | some e => cases e <;> simp [held, Entry.shape]

theorem look_of_read {content : ByteArray} (held : t.read p = .ok content) :
    t.look (t.place p) = some (.file content) := by
  rw [read_eq] at held
  cases leads : t.resolve p with
  | error e =>
    rw [leads] at held
    cases held
  | ok names =>
    rw [leads] at held
    rw [← place_of_resolve leads]
    dsimp only [Except.bind] at held
    split at held <;> simp_all

theorem place_mem_stops (t : FileTree) (p : Path) : t.place p ∈ stops (t.start p) p.pieces := by
  have mem := foldl_mem_stops (t.start p) p.pieces []
  rwa [List.append_nil] at mem

theorem place_join {name : String} (single : '/' ∉ name.toList)
    (proper : name ≠ "" ∧ name ≠ "." ∧ name ≠ "..") :
    t.place (p.join ⟨name⟩) = t.place p ++ [name] := by
  obtain ⟨absolute, front, pieces, joined⟩ := Path.join_name (p := p) single
  have start : t.start (p.join ⟨name⟩) = t.start p := by
    unfold start
    rw [absolute]
  have folder : t.place p = front.foldl stride (t.start p) := by
    unfold place
    obtain pieces | pieces := pieces <;> simp [pieces, stride]
  rw [folder, place, start, joined, List.foldl_append]
  simp [stride, proper]

theorem lastStep_eq (t : FileTree) (p : Path) :
    t.lastStep p = (askable p).bind fun _ =>
      match p.lastPiece? with
      | none => .ok ([], none)
      | some (before, last) => (before.foldlM t.step (t.start p)).bind fun folder =>
        match t.look folder with
        | some .folder => .ok (folder, some last)
        | some (.file _) => .error .notFolder
        | none => .error .notFound := by
  unfold lastStep
  refine congrArg (askable p).bind (funext fun _ => ?_)
  cases p.lastPiece? with
  | none => rfl
  | some pair =>
    refine congrArg (pair.1.foldlM t.step (t.start p)).bind (funext fun folder => ?_)
    rw [look_eq_map]
    cases t.find? folder with
    | none => rfl
    | some e => cases e <;> rfl

theorem place_of_lastStep {folder : List String} {name : String}
    (found : t.lastStep p = .ok (folder, some name)) :
    t.look folder = some .folder ∧ (isStep name = false → t.place p = folder ++ [name]) := by
  rw [lastStep_eq] at found
  cases asked : askable p with
  | error e =>
    rw [asked] at found
    cases found
  | ok _ =>
    rw [asked] at found
    dsimp only [Except.bind] at found
    split at found
    · cases found
    · rename_i before last final
      obtain ⟨proper, blanks, pieces⟩ := Path.pieces_of_lastPiece final
      cases walked : before.foldlM t.step (t.start p) with
      | error e =>
        rw [walked] at found
        cases found
      | ok there =>
        rw [walked] at found
        dsimp only at found
        split at found
        · rename_i held
          cases found
          refine ⟨held, fun plain => ?_⟩
          have plain : name ≠ "." ∧ name ≠ ".." := by simpa [isStep] using plain
          rw [place, pieces, List.foldl_append, ← foldl_of_foldlM walked, List.foldl_cons, foldl_blanks]
          simp [stride, proper, plain]
        · cases found
        · cases found

/-! ## What is put and removed -/

def Roofed (t : FileTree) (names : List String) : Prop := names = [] ∨ t.look names.dropLast = some .folder

theorem Roofed.of_look {shape : Shape} (found : t.look names = some shape) : t.Roofed names := by
  by_cases root : names = []
  · exact .inl root
  · refine .inr (Entry.look_above found (List.dropLast_prefix names) fun same => ?_)
    have shorter := congrArg List.length same
    have some := List.length_pos_iff.mpr root
    rw [List.length_dropLast] at shorter
    omega

theorem look_putAt (roofed : t.Roofed names) (new : Entry) (other : List String) :
    (t.putAt names new).look other = if names <+: other then new.look (other.drop names.length) else
      t.look other :=
  Entry.look_put roofed new other

theorem look_removeAt (t : FileTree) (names other : List String) :
    (t.removeAt names).look other = if names ≠ [] ∧ names <+: other then none else t.look other := by
  by_cases root : names = []
  · subst root
    have same : t.root.remove [] = t.root := by
      rw [Entry.remove]
    simp [removeAt, look, same]
  · simp only [ne_eq, root, not_false_eq_true, true_and]
    exact Entry.look_remove root other

theorem drop_eq_nil_iff {names other : List String} (below : names <+: other) :
    other.drop names.length = [] ↔ other = names := by
  obtain ⟨rest, rfl⟩ := below
  simp

theorem look_putAt_file (roofed : t.Roofed names) (content : ByteArray) (other : List String) :
    (t.putAt names (.file content)).look other =
      if other = names then some (.file content) else if names <+: other then none else t.look other := by
  rw [look_putAt roofed, Entry.look_file]
  grind [drop_eq_nil_iff, List.prefix_refl]

theorem look_putAt_emptyFolder (roofed : t.Roofed names) (other : List String) :
    (t.putAt names (.folder [])).look other =
      if other = names then some .folder else if names <+: other then none else t.look other := by
  rw [look_putAt roofed, Entry.look_emptyFolder]
  grind [drop_eq_nil_iff, List.prefix_refl]

/-! ## Operations by what they look at -/

def target (t : FileTree) (p : Path) : Except FileError (List String) := do
  match ← t.lastStep p with
  | (_, none) => .error .isFolder
  | (folder, some name) =>
    if isStep name || p.endsInSlash then .error .isFolder
    else if maxNameBytes < name.utf8ByteSize then .error .nameTooLong
    else if t.look (folder ++ [name]) = some .folder then .error .isFolder
    else .ok (folder ++ [name])

theorem write_eq (t : FileTree) (p : Path) (content : ByteArray) :
    t.write p content = (t.target p).map (t.putAt · (.file content)) := by
  unfold write target
  cases t.lastStep p with
  | error e => rfl
  | ok found =>
    obtain ⟨folder, name⟩ := found
    cases name with
    | none => rfl
    | some name =>
      dsimp only [bind, Except.bind]
      rw [look_eq_map]
      split
      · rfl
      · split
        · rfl
        · cases t.find? (folder ++ [name]) with
          | none => simp [Except.map]
          | some e => cases e <;> simp [Entry.shape, Except.map]

theorem target_spec (found : t.target p = .ok names) :
    names = t.place p ∧ t.Roofed names ∧ t.look names ≠ some .folder := by
  unfold target at found
  cases stepped : t.lastStep p with
  | error e =>
    rw [stepped] at found
    cases found
  | ok pair =>
    obtain ⟨folder, _ | name⟩ := pair
    · rw [stepped] at found
      cases found
    · rw [stepped] at found
      dsimp only [bind, Except.bind] at found
      obtain ⟨there, leads⟩ := place_of_lastStep stepped
      split at found
      · cases found
      · rename_i plain
        split at found
        · cases found
        · split at found
          · cases found
          · rename_i free
            cases found
            refine ⟨(leads (by simp_all)).symm, .inr ?_, free⟩
            rwa [List.dropLast_concat]

theorem deleteFile_eq (t : FileTree) (p : Path) :
    t.deleteFile p = (t.resolve p).bind fun names =>
      match t.look names with
      | some (.file _) => .ok (t.removeAt names)
      | _ => .error .isFolder := by
  unfold deleteFile
  refine congrArg (t.resolve p).bind (funext fun names => ?_)
  rw [look_eq_map]
  cases t.find? names with
  | none => rfl
  | some e => cases e <;> rfl

theorem deleteFile_spec (deleted : t.deleteFile p = .ok u) :
    u = t.removeAt (t.place p) ∧ ∃ content, t.look (t.place p) = some (.file content) := by
  rw [deleteFile_eq] at deleted
  cases leads : t.resolve p with
  | error e =>
    rw [leads] at deleted
    cases deleted
  | ok names =>
    rw [leads] at deleted
    dsimp only [Except.bind] at deleted
    rw [← place_of_resolve leads]
    split at deleted
    · rename_i content held
      cases deleted
      exact ⟨rfl, content, held⟩
    · cases deleted

theorem deleteFile_of_read {content : ByteArray} (held : t.read p = .ok content) :
    t.deleteFile p = .ok (t.removeAt (t.place p)) := by
  have there := look_of_read held
  rw [read_eq] at held
  rw [deleteFile_eq]
  cases leads : t.resolve p with
  | error e =>
    rw [leads] at held
    cases held
  | ok names =>
    rw [← place_of_resolve leads] at there ⊢
    simp [Except.bind, there]

theorem makeFolder_spec (made : t.makeFolder p = .ok u) :
    u = t.putAt (t.place p) (.folder []) ∧ t.Roofed (t.place p) ∧ t.look (t.place p) = none := by
  unfold makeFolder at made
  cases stepped : t.lastStep p with
  | error e =>
    rw [stepped] at made
    cases made
  | ok pair =>
    obtain ⟨folder, _ | name⟩ := pair
    · rw [stepped] at made
      cases made
    · rw [stepped] at made
      dsimp only [bind, Except.bind] at made
      obtain ⟨there, leads⟩ := place_of_lastStep stepped
      split at made
      · cases made
      · rename_i plain
        split at made
        · cases made
        · split at made
          · cases made
          · rename_i free
            cases made
            rw [leads (by simpa using plain)]
            refine ⟨rfl, .inr ?_, look_eq_none.mpr (by simpa using free)⟩
            rwa [List.dropLast_concat]

theorem deleteEmpty_spec (deleted : t.deleteEmpty p = .ok u) : u = t.removeAt (t.place p) := by
  unfold deleteEmpty at deleted
  cases stepped : t.lastStep p with
  | error e =>
    rw [stepped] at deleted
    cases deleted
  | ok pair =>
    rw [stepped] at deleted
    dsimp only [bind, Except.bind] at deleted
    split at deleted
    · cases deleted
    · cases deleted
    · cases deleted
    · rename_i folder name dot dots
      obtain ⟨-, leads⟩ := place_of_lastStep stepped
      have plain : isStep name = false := by
        have : name ≠ "." ∧ name ≠ ".." := by grind
        simp [isStep, this]
      split at deleted <;> cases deleted
      rw [leads plain]

end FileTree

end RubyInfer
