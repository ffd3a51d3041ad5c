import RubyInfer.Proofs.FileTree.Names

/-!
# The order of entries

Folders keep their entries in the order of their names, and a change keeps them so (`Ordered.put`,
`Ordered.remove`). What lies before and after one name is then listed before and after it
(`filesIn_split`), and what is listed is there (`Ordered.look_of_mem_files`).
-/

namespace RubyInfer

namespace Entry

variable {e new : Entry} {name : String} {names : List String}

def children : Entry → List (String × Entry)
  | .folder children => children
  | .file _ => []

def childrenAt (e : Entry) (names : List String) : List (String × Entry) := (e.find? names).elim [] children

theorem child?_eq (e : Entry) (name : String) : e.child? name = e.children.lookup name := by
  cases e <;> rfl

theorem childrenAt_cons (e : Entry) (name : String) (names : List String) :
    e.childrenAt (name :: names) = (e.children.lookup name).elim [] (·.childrenAt names) := by
  unfold childrenAt
  rw [find?, child?_eq]
  cases e.children.lookup name <;> rfl

theorem find?_snoc (e : Entry) (names : List String) (name : String) :
    e.find? (names ++ [name]) = (e.childrenAt names).lookup name := by
  unfold childrenAt
  rw [find?_append]
  cases e.find? names with
  | none => rfl
  | some f =>
    rw [Option.bind_some, find?, child?_eq, Option.elim_some]
    cases f.children.lookup name <;> rfl

theorem find?_through (e : Entry) (above : List String) (name : String) (below : List String) :
    e.find? (above ++ name :: below) = ((e.childrenAt above).lookup name).bind (·.find? below) := by
  rw [List.append_cons, find?_append, find?_snoc]

theorem mem_files_of_childrenAt {rest : List String} (mem : rest ∈ filesIn (e.childrenAt names)) :
    names ++ rest ∈ e.files := by
  unfold childrenAt at mem
  cases found : e.find? names with
  | none => simp [found, filesIn] at mem
  | some f =>
    rw [found, Option.elim_some] at mem
    cases f with
    | file content => simp [children, filesIn] at mem
    | folder children => exact files_of_find? found mem

/-! ## Changes -/

theorem children_put (new e : Entry) (name : String) (names : List String) :
    (put new e (name :: names)).children =
      setChild name (put new ((e.children.lookup name).getD (.folder [])) names) e.children := by
  cases e <;> simp [put, children, setChild]

theorem children_remove_last (e : Entry) (name : String) :
    (e.remove [name]).children = e.children.filter fun c => c.1 ≠ name := by
  cases e <;> simp [remove, children]

theorem children_remove (e : Entry) (name : String) (inner : names ≠ []) :
    (e.remove (name :: names)).children =
      (e.children.lookup name).elim e.children fun child =>
        setChild name (child.remove names) e.children := by
  cases names with
  | nil => exact absurd rfl inner
  | cons next names =>
    cases e with
    | file content => rfl
    | folder children =>
      cases found : children.lookup name <;> simp [remove, Entry.children, found]

theorem filter_setChild (name : String) (e : Entry) (children : List (String × Entry)) :
    (setChild name e children).filter (fun c => c.1 ≠ name) = children.filter (fun c => c.1 ≠ name) := by
  induction children with
  | nil => simp [setChild]
  | cons first rest ih =>
    obtain ⟨n, old⟩ := first
    unfold setChild
    split
    · simp_all
    · split
      · simp
      · rw [List.filter_cons, List.filter_cons, ih]

theorem childrenAt_put (new e : Entry) (above : List String) (name : String) (below : List String) :
    ((put new e (above ++ name :: below)).childrenAt above).filter (fun c => c.1 ≠ name) =
      (e.childrenAt above).filter fun c => c.1 ≠ name := by
  induction above generalizing e with
  | nil =>
    show (put new e (name :: below)).children.filter _ = _
    rw [children_put, filter_setChild]
    rfl
  | cons first above ih =>
    rw [List.cons_append, childrenAt_cons, children_put, lookup_setChild, if_pos rfl,
      Option.elim_some, ih, childrenAt_cons]
    cases e.children.lookup first with
    | some child => rfl
    | none => cases above <;> rfl

theorem childrenAt_remove (e : Entry) (above : List String) (name : String) (below : List String) :
    ((e.remove (above ++ name :: below)).childrenAt above).filter (fun c => c.1 ≠ name) =
      (e.childrenAt above).filter fun c => c.1 ≠ name := by
  induction above generalizing e with
  | nil =>
    show (e.remove (name :: below)).children.filter _ = e.children.filter _
    by_cases last : below = []
    · rw [last, children_remove_last, List.filter_filter]
      simp
    · rw [children_remove e name last]
      cases e.children.lookup name with
      | none => rfl
      | some child => exact filter_setChild ..
  | cons first above ih =>
    rw [List.cons_append, childrenAt_cons, children_remove e first (by simp), childrenAt_cons]
    cases found : e.children.lookup first with
    | none => simp [found]
    | some child => rw [Option.elim_some, lookup_setChild, if_pos rfl, Option.elim_some, ih, Option.elim_some]

/-! ## Order -/

def Ordered (e : Entry) : Prop := ∀ names, (e.childrenAt names).Pairwise (·.1 < ·.1)

theorem ordered_iff : e.Ordered ↔ e.children.Pairwise (·.1 < ·.1) ∧
    ∀ name, ∀ child ∈ e.children.lookup name, child.Ordered := by
  constructor
  · intro ordered
    refine ⟨ordered [], fun name child there names => ?_⟩
    have inner := ordered (name :: names)
    rwa [childrenAt_cons, Option.mem_def.mp there] at inner
  · rintro ⟨sorted, inner⟩ names
    cases names with
    | nil => exact sorted
    | cons name names =>
      rw [childrenAt_cons]
      cases there : e.children.lookup name with
      | none => exact .nil
      | some child => exact inner name child there names

theorem ordered_file (content : ByteArray) : (file content).Ordered :=
  ordered_iff.mpr ⟨.nil, by rintro _ _ ⟨⟩⟩

theorem ordered_folder {children : List (String × Entry)} (sorted : children.Pairwise (·.1 < ·.1))
    (inner : ∀ c ∈ children, c.2.Ordered) :
    (folder children).Ordered := by
  refine ordered_iff.mpr ⟨sorted, fun name child there => ?_⟩
  obtain ⟨before, after, rfl, -⟩ := List.lookup_eq_some_iff.mp there
  exact inner (name, child) (by simp)

theorem ordered_emptyFolder : (folder []).Ordered := ordered_folder .nil nofun

theorem mem_setChild {c : String × Entry} {children : List (String × Entry)}
    (mem : c ∈ setChild name e children) : c = (name, e) ∨ c ∈ children := by
  induction children with
  | nil => exact .inl (List.mem_singleton.mp mem)
  | cons first rest ih =>
    unfold setChild at mem
    grind

theorem pairwise_setChild {children : List (String × Entry)}
    (sorted : children.Pairwise (·.1 < ·.1)) (name : String) (e : Entry) :
    (setChild name e children).Pairwise (·.1 < ·.1) := by
  induction children with
  | nil => exact List.pairwise_singleton _ _
  | cons first rest ih =>
    obtain ⟨n, old⟩ := first
    obtain ⟨later, sorted⟩ := List.pairwise_cons.mp sorted
    unfold setChild
    split
    · rename_i same
      exact List.pairwise_cons.mpr ⟨same ▸ later, sorted⟩
    · split
      · rename_i less
        refine List.pairwise_cons.mpr ⟨fun c mem => ?_, List.pairwise_cons.mpr ⟨later, sorted⟩⟩
        rcases List.mem_cons.mp mem with rfl | after
        · exact less
        · exact String.lt_trans less (later c after)
      · refine List.pairwise_cons.mpr ⟨fun c mem => ?_, ih sorted⟩
        rcases mem_setChild mem with rfl | old
        · grind
        · exact later c old

namespace Ordered

theorem put (ordered : e.Ordered) (inner : new.Ordered) (names : List String) :
    (put new e names).Ordered := by
  induction names generalizing e with
  | nil => exact inner
  | cons name names ih =>
    obtain ⟨sorted, others⟩ := ordered_iff.mp ordered
    rw [ordered_iff, children_put]
    refine ⟨pairwise_setChild sorted .., fun k child there => ?_⟩
    rw [lookup_setChild] at there
    split at there
    · cases there
      apply ih
      cases found : e.children.lookup name with
      | none => exact ordered_emptyFolder
      | some child => exact others name child found
    · exact others k child there

theorem remove (ordered : e.Ordered) (names : List String) : (e.remove names).Ordered := by
  induction names generalizing e with
  | nil =>
    unfold Entry.remove
    exact ordered
  | cons name names ih =>
    obtain ⟨sorted, others⟩ := ordered_iff.mp ordered
    rw [ordered_iff]
    by_cases last : names = []
    · rw [last, children_remove_last]
      refine ⟨sorted.filter _, fun k child there => ?_⟩
      rw [lookup_filter] at there
      split at there
      · cases there
      · exact others k child there
    · rw [children_remove e name last]
      cases found : e.children.lookup name with
      | none => exact ⟨sorted, others⟩
      | some inside =>
        refine ⟨pairwise_setChild sorted .., fun k child there => ?_⟩
        rw [Option.elim_some, lookup_setChild] at there
        split at there
        · cases there
          exact ih (others name inside found)
        · exact others k child there

theorem look_of_mem_files (ordered : e.Ordered) (mem : names ∈ e.files) :
    ∃ content, e.look names = some (.file content) := by
  induction names generalizing e with
  | nil =>
    cases e with
    | file content => exact ⟨content, rfl⟩
    | folder children =>
      obtain ⟨child, -, rest, -, same⟩ := mem_filesIn.mp mem
      cases same
  | cons name names ih =>
    cases e with
    | file content => simp [files] at mem
    | folder children =>
      obtain ⟨sorted, inner⟩ := ordered_iff.mp ordered
      obtain ⟨child, listed, rest, below, same⟩ := mem_filesIn.mp mem
      cases same
      have there : children.lookup child.1 = some child.2 := by
        obtain ⟨before, after, rfl⟩ := List.append_of_mem listed
        refine List.lookup_eq_some_iff.mpr ⟨before, after, rfl, fun c earlier => ?_⟩
        have less := (List.pairwise_append.mp sorted).2.2 c earlier child List.mem_cons_self
        simp only [bne_iff_ne, ne_eq]
        rintro same
        exact String.lt_irrefl _ (same ▸ less)
      obtain ⟨content, found⟩ := ih (inner _ _ there) below
      exact ⟨content, by rw [look_folder_cons, there, Option.bind_some, found]⟩

end Ordered

theorem filesIn_split {children : List (String × Entry)} (sorted : children.Pairwise (·.1 < ·.1))
    (name : String) :
    filesIn children = filesIn (children.filter fun c => c.1 < name) ++
      (((children.lookup name).elim [] files).map (name :: ·) ++
        filesIn (children.filter fun c => name < c.1)) := by
  induction children with
  | nil => simp [filesIn]
  | cons first rest ih =>
    obtain ⟨n, child⟩ := first
    obtain ⟨later, sorted⟩ := List.pairwise_cons.mp sorted
    have none (after : ∀ c ∈ rest, name < c.1) :
        rest.filter (fun c => c.1 < name) = [] ∧ rest.filter (fun c => name < c.1) = rest :=
      ⟨List.filter_eq_nil_iff.mpr (by grind), List.filter_eq_self.mpr (by grind)⟩
    by_cases same : name = n
    · subst same
      obtain ⟨before, after⟩ := none later
      simp only [List.filter_cons, String.lt_irrefl, decide_false, Bool.false_eq_true, if_false,
        before, after, lookup_cons, if_true,
        filesIn, List.nil_append, Option.elim_some]
    · by_cases less : name < n
      · obtain ⟨before, after⟩ := none fun c mem => String.lt_trans less (later c mem)
        have missing : rest.lookup name = Option.none := by
          refine List.lookup_eq_none_iff.mpr fun c mem => ?_
          have greater := String.lt_trans less (later c mem)
          grind
        simp only [List.filter_cons, String.lt_asymm less, less, decide_false, decide_true,
          Bool.false_eq_true, if_false, if_true,
          before, after, lookup_cons, same, missing, filesIn, List.nil_append, List.map_nil, Option.elim_none]
      · have greater : n < name := by grind
        simp only [List.filter_cons, greater, less, decide_false, decide_true, Bool.false_eq_true,
          if_false, if_true, lookup_cons, same,
          filesIn, ih sorted, List.append_assoc]

end Entry

end RubyInfer
