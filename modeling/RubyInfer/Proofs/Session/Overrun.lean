import RubyInfer.Proofs.Session.Telling

/-!
# Which file exceeds the depth

That a visit was refused is noted in one place for all files that are being loaded, and whoever ends
a file clears the note. So it is right as long as the file that exceeds the depth is the one that
ends next. A file that is opened in between takes the note over: it is given up in the place of the
other one (`load_charged`, `required_charged`).
-/

namespace RubyInfer

def Event.Overruns (own : List Path) : Event → Prop
  | visit _ _ m => m.importStack.paths = own ∧ m.options.maxDepth ≤ m.depth
  | change _ _ => False

def Event.Opens (own : List Path) : Event → Prop
  | visit _ _ _ => False
  | change m t => m.importStack.paths = own ∧ own.length < t.importStack.size

instance (own : List Path) : DecidablePred (Event.Overruns own)
  | .visit _ _ m => inferInstanceAs (Decidable (m.importStack.paths = own ∧ m.options.maxDepth ≤ m.depth))
  | .change _ _ => inferInstanceAs (Decidable False)

instance (own : List Path) : DecidablePred (Event.Opens own)
  | .visit _ _ _ => inferInstanceAs (Decidable False)
  | .change m t => inferInstanceAs (Decidable (m.importStack.paths = own ∧ own.length < t.importStack.size))

/-- Whether there is a note after some events, if it was there before: a refusal makes it, and a
file that is opened takes it away. -/
def Charged (own : List Path) (noted : Prop) : List Event → Prop
  | [] => noted
  | e :: events => Charged own ((noted ∨ e.Overruns own) ∧ ¬e.Opens own) events

section Charged

variable {own : List Path} {p q : Prop} {events : List Event}

theorem charged_append (first second : List Event) :
    Charged own p (first ++ second) = Charged own (Charged own p first) second := by
  induction first generalizing p with
  | nil => rfl
  | cons e first ih => exact ih

theorem charged_of_foreign (foreign : ∀ m ∈ through events, m.importStack.paths ≠ own) :
    Charged own p events = p := by
  induction events generalizing p with
  | nil => rfl
  | cons e events ih =>
    rw [through_cons, List.forall_mem_append] at foreign
    have single : ((p ∨ e.Overruns own) ∧ ¬e.Opens own) = p := by
      cases e with
      | visit node scope m => simp [Event.Overruns, Event.Opens, foreign.1 m (by simp [Event.sessions])]
      | change m t => simp [Event.Overruns, Event.Opens, foreign.1 m (by simp [Event.sessions])]
    rw [Charged, single]
    exact ih foreign.2

variable {a b : Session} {node : NodeRef} {scope : ScopeId}

theorem charged_visit (room : a.depth < a.options.maxDepth) :
    Charged own p (.visit node scope a :: events) = Charged own p events := by
  simp [Charged, Event.Overruns, Event.Opens, Nat.not_le.mpr room]

theorem charged_refused (spent : a.options.maxDepth ≤ a.depth) :
    Charged a.importStack.paths p (.visit node scope a :: events) =
      Charged a.importStack.paths True events := by
  simp [Charged, Event.Overruns, Event.Opens, spent]

theorem charged_opened (more : a.importStack.size < b.importStack.size) :
    Charged a.importStack.paths p (.change a b :: events) = Charged a.importStack.paths False events := by
  simp only [Charged, Event.Opens, true_and,
    show a.importStack.paths.length < b.importStack.size from more, not_true, and_false]

theorem charged_change (fewer : a.importStack.paths = own → b.importStack.size ≤ a.importStack.size) :
    Charged own p (.change a b :: events) = Charged own p events := by
  have nothing : ¬(Event.change a b).Opens own := by
    rintro ⟨rfl, more⟩
    exact Nat.lt_irrefl _ (Nat.lt_of_lt_of_le more (fewer rfl))
  simp [Charged, Event.Overruns, nothing]

theorem charged_kept (same : b.importStack = a.importStack) :
    Charged own p (.change a b :: events) = Charged own p events :=
  charged_change fun _ => Nat.le_of_eq (congrArg PathSet.size same)

def Overran (own : List Path) (events : List Event) : Prop :=
  ∃ before e after, events = before ++ e :: after ∧ e.Overruns own ∧ ∀ later ∈ after, ¬later.Opens own

theorem overran_cons (e : Event) (events : List Event) :
    Overran own (e :: events) ↔ (e.Overruns own ∧ ∀ later ∈ events, ¬later.Opens own) ∨
      Overran own events := by
  constructor
  · rintro ⟨before, e', after, split, refused, none⟩
    cases before with
    | nil =>
      cases split
      exact .inl ⟨refused, none⟩
    | cons _ before =>
      cases split
      exact .inr ⟨before, e', after, rfl, refused, none⟩
  · rintro (⟨refused, none⟩ | ⟨before, e', after, rfl, refused, none⟩)
    · exact ⟨[], e, events, rfl, refused, none⟩
    · exact ⟨e :: before, e', after, rfl, refused, none⟩

theorem not_opens_of_overruns {e : Event} (refused : e.Overruns own) : ¬e.Opens own := by
  cases e with
  | visit => exact id
  | change => exact refused.elim

theorem charged_iff : Charged own p events ↔ (p ∧ ∀ e ∈ events, ¬e.Opens own) ∨ Overran own events := by
  induction events generalizing p with
  | nil => simp [Charged, Overran]
  | cons e events ih =>
    have either : e.Overruns own → ¬e.Opens own := not_opens_of_overruns
    rw [Charged, ih, overran_cons, List.forall_mem_cons]
    grind

theorem overran_iff : Overran own events ↔ Charged own False events := by
  simp [charged_iff]

end Charged

namespace Session

variable {p : Prop} {o : Option NodeRef} {s t : Session} {events : List Event} {file : Path}

/-! ## The note along a course -/

theorem size_openFile (fresh : s.importStack.contains file = false) :
    s.importStack.size < (s.openFile file).importStack.size := by
  simp [openFile, PathSet.insert, PathSet.size, fresh]

theorem foreign_of_opened {m : Session} (fresh : s.importStack.contains file = false)
    (within : (s.openFile file).importStack.paths <+: m.importStack.paths) :
    m.importStack.paths ≠ s.importStack.paths := by
  intro same
  have more := within.length_le
  rw [same] at more
  exact Nat.lt_irrefl _ (Nat.lt_of_lt_of_le (size_openFile fresh) more)

theorem contains_openFile (s : Session) (file : Path) :
    (s.openFile file).importStack.contains file = true := by
  show (s.importStack.insert file).contains file = true
  simp [PathSet.contains_insert]

theorem exhausted_fileEnded (s : Session) (depth : Nat) (file : Path) :
    (s.fileEnded depth file).exhausted = false := by
  unfold fileEnded
  split
  · rfl
  · exact Bool.eq_false_iff.mpr ‹_›

theorem importStack_fileEnded (s : Session) (depth : Nat) (file : Path) :
    (s.fileEnded depth file).importStack = s.importStack := by
  unfold fileEnded
  split <;> rfl

/-- The note is there at the end exactly if a refusal of the same files made it, or it was there,
and none of the files that were opened has taken it away. -/
theorem Course.charged (course : Course p o s events t) :
    (t.exhausted = true) = Charged s.importStack.paths (s.exhausted = true) events := by
  induction course with
  | nil => rfl
  | append before _ first second => rw [charged_append, ← first, second, before.steady.importStack]
  | quiet quiet =>
    rw [charged_kept quiet.importStack, quiet.exhausted]
    rfl
  | part _ _ visit => exact visit
  | refused node scope spent =>
    rw [charged_refused spent, charged_kept (by rfl)]
    simp [Charged]
  | passed node scope spent => simp [Charged, Event.Overruns, Event.Opens, spent]
  | inside node scope room going inner within =>
    rw [List.append_assoc, charged_append, charged_append, charged_visit room, charged_kept (by rfl),
      charged_kept (by rfl)]
    exact within
  | unread => rw [charged_kept (by rfl), charged_kept (by rfl)]; rfl
  | oversized => rw [charged_kept (by rfl), charged_kept (by rfl)]; rfl
  | @load _ s t file tree events fresh again present fits root within =>
    have inside {m : Session} (around : Around ((s.found file).openFile file) m) :
        m.importStack.paths ≠ s.importStack.paths :=
      foreign_of_opened (s := s.found file) fresh around.importStack
    have begins : Charged s.importStack.paths (s.exhausted = true) [.change s (s.fetch file).2,
        .change (s.fetch file).2 (s.found file),
        .change (s.found file) ((s.found file).openFile file)] = False := by
      rw [charged_kept (by rfl), charged_kept (by rfl)]
      exact charged_opened (size_openFile (s := s.found file) fresh)
    have ends : Charged s.importStack.paths False [.change t (t.closeFile s.cwd file),
        .change (t.closeFile s.cwd file) ((t.closeFile s.cwd file).fileEnded s.depth file)] = False := by
      rw [charged_change fun same => absurd same (inside root.steady.around),
        charged_kept (importStack_fileEnded ..)]
      rfl
    rw [charged_append, charged_append, begins, charged_of_foreign fun m mem =>
      inside (root.around m mem), ends,
      exhausted_fileEnded, Bool.false_eq_true]
  | call result there fresh bounded body within =>
    rw [List.append_assoc, charged_append, charged_append, charged_kept (by rfl), charged_kept (by rfl)]
    exact within

theorem loaded_fileEnded (s : Session) (depth : Nat) (file other : Path) :
    (s.fileEnded depth file).loaded.contains other =
      (s.loaded.contains other || (!s.exhausted && other.same file)) := by
  unfold fileEnded
  split
  · rename_i given
    simp [given, skipExhausted]
  · rename_i going
    simp [going, PathSet.contains_insert]

theorem count_fileEnded {file other : Path} (distinct : file.same other = false) (s : Session) (depth : Nat) :
    (s.fileEnded depth other).loaded.count file = s.loaded.count file := by
  unfold fileEnded
  split
  · rfl
  · exact PathSet.count_insert_other distinct

theorem same_of_open {file other : Path} (here : s.importStack.contains file = true)
    (fresh : s.importStack.contains other = false) :
    file.same other = false := by
  cases same : file.same other with
  | false => rfl
  | true =>
    rw [PathSet.contains_congr same, fresh] at here
    cases here

theorem Course.loaded_of_open (course : Course p o s events t) (here : s.importStack.contains file = true) :
    t.loaded.count file = s.loaded.count file := by
  induction course with
  | nil => rfl
  | append before _ first second => rw [second (before.steady.importStack ▸ here), first here]
  | quiet quiet => rw [quiet.loaded]
  | part _ _ visit => exact visit here
  | refused => rfl
  | passed => rfl
  | inside _ _ _ _ _ inner => exact inner here
  | unread => rfl
  | oversized => rfl
  | @load _ s t other _ _ fresh _ _ _ root within =>
    rw [count_fileEnded (same_of_open here fresh)]
    refine within ?_
    show (s.importStack.insert other).contains file = true
    rw [PathSet.contains_insert, here, Bool.true_or]
  | call _ _ _ _ _ body => exact body here

theorem overran_load (fresh : s.importStack.contains file = false)
    (inside : Steady ((s.found file).openFile file) t) :
    Overran (s.importStack.paths ++ [file]) (.change s (s.fetch file).2 ::
      ([.change (s.fetch file).2 (s.found file),
      .change (s.found file) ((s.found file).openFile file)] ++ events ++
        [.change t (t.closeFile s.cwd file),
        .change (t.closeFile s.cwd file) ((t.closeFile s.cwd file).fileEnded s.depth file)])) ↔
      Overran (s.importStack.paths ++ [file]) events := by
  have before {a : Session} (same : a.importStack = s.importStack) :
      a.importStack.paths ≠ s.importStack.paths ++ [file] := by
    simp [same]
  have closed := (steady_closeFile fresh inside).importStack
  have fewer : (t.closeFile s.cwd file).importStack.size ≤ t.importStack.size := by
    rw [closed, inside.importStack]
    exact Nat.le_of_lt (size_openFile (s := s.found file) fresh)
  rw [overran_iff, overran_iff, charged_change fun same => absurd same (before (by rfl)), charged_append,
    charged_change fun _ => fewer, charged_kept (importStack_fileEnded ..), Charged, charged_append,
    charged_change fun same => absurd same (before (by rfl)), charged_change fun same =>
      absurd same (before (by rfl)), Charged]

theorem Course.exhausted_visit {node : NodeRef} (course : Course False (some node) s events t)
    (spent : s.exhausted = true) :
    t.exhausted = true := by
  cases course with
  | refused => rfl
  | passed => exact spent
  | inside _ _ _ going => exact absurd spent (Bool.eq_false_iff.mp going)

end Session

namespace Analysis

open Session

variable {s t : Session} {visit : Visit} {told : VisitIn Told} {path file : Path} {force : Bool} {tree : Nat}

theorem load_told (here : s.files.settle path = file) (fresh : s.importStack.contains file = false)
    (again : force = true ∨ s.loaded.contains file = false) (present : (s.fetch file).1 = some tree)
    (fits : ((s.fetch file).2.cache.trees[tree]?.getD default).size ≤ s.options.maxNodes)
    {result : Option Ty} {events : List Event}
    (rest : loadTree told file tree (s.fetch file).2 = (result, t, events)) :
    load told path force s = (result, t, .change s (s.fetch file).2 :: events) := by
  subst here
  have anew : (!force && s.loaded.contains (s.files.settle path)) = false := by
    rcases again with rfl | fresh
    · rfl
    · rw [fresh, Bool.and_false]
  unfold load
  refine Told.run_get (Told.run_get ?_)
  rw [fresh, if_neg Bool.false_ne_true]
  refine Told.run_get ?_
  rw [anew, if_neg Bool.false_ne_true]
  refine Told.run_modifyGet ?_
  rw [present]
  refine Told.run_get ?_
  exact (congrFun (if_neg (Nat.not_lt.mpr fits)) _).trans rest

theorem load_opened (hears : Hears visit told s) (here : s.files.settle path = file)
    (fresh : s.importStack.contains file = false) (again : force = true ∨ s.loaded.contains file = false)
    (present : (s.fetch file).1 = some tree)
    (fits : ((s.fetch file).2.cache.trees[tree]?.getD default).size ≤ s.options.maxNodes) :
    ∃ ty u events, Course False (some ((s.found file).rootOf tree)) ((s.found file).openFile file) events u ∧
      (load visit path force).run s =
        (if u.exhausted then none else some ty, (u.closeFile s.cwd file).fileEnded s.depth file) ∧
      load told path force s = (if u.exhausted then none else some ty,
        (u.closeFile s.cwd file).fileEnded s.depth file,
        .change s (s.fetch file).2 ::
          ([.change (s.fetch file).2 (s.found file),
            .change (s.found file) ((s.found file).openFile file)] ++ events ++
            [.change u (u.closeFile s.cwd file),
              .change (u.closeFile s.cwd file) ((u.closeFile s.cwd file).fileEnded s.depth file)])) := by
  have later : Later s ((s.found file).openFile file) := ⟨rfl, rfl, (s.steady_fetch file).trees⟩
  obtain ⟨ty, u, events, -, visited, course⟩ :=
    (hears _ ((s.found file).rootOf tree) Scopes.global later).split
  have told := load_told here fresh again present fits (loadTree_told visited)
  obtain ⟨result, t, _, ran, same, -⟩ := (load_tells (p := True) hears path force fun _ => trivial).split
  have equal := same.symm.trans told
  simp only [Prod.mk.injEq] at equal
  obtain ⟨rfl, rfl, rfl⟩ := equal
  exact ⟨ty, u, events, course, ran, told⟩

/-- **Which file is given up.** A file that gets as far as its root is given up, and does not count
as loaded, exactly if the depth had been exceeded before the file was opened, or a visit of the file
itself is refused and the file opens no other one after that. Either way nothing is left of the
note. -/
theorem load_charged {levels : Nat} (left : levels = s.options.maxDepth - s.depth)
    (here : s.files.settle path = file)
    (fresh : s.importStack.contains file = false) (again : force = true ∨ s.loaded.contains file = false)
    (present : (s.fetch file).1 = some tree)
    (fits : ((s.fetch file).2.cache.trees[tree]?.getD default).size ≤ s.options.maxNodes) :
    ∃ result t events,
      (load (infer levels) path force).run s = (result, t) ∧
        load (tell levels) path force s = (result, t, events) ∧
      (result = none ↔ s.exhausted = true ∨ Overran (s.importStack.paths ++ [file]) events) ∧
      (t.loaded.contains file = (s.loaded.contains file || result.isSome)) ∧ t.exhausted = false := by
  obtain ⟨ty, u, events, course, ran, same⟩ :=
    load_opened (tell_hears levels left) here fresh again present fits
  refine ⟨_, _, _, ran, same, ?_, ?_, exhausted_fileEnded ..⟩
  · have opened : ((s.found file).openFile file).importStack.paths = s.importStack.paths ++ [file] := by
      simp [openFile, PathSet.insert, show (s.found file).importStack = s.importStack from rfl, fresh]
    have noted := course.charged
    rw [opened] at noted
    rw [overran_load fresh course.steady]
    have given : (if u.exhausted then none else some ty) = none ↔ u.exhausted = true := by
      cases u.exhausted <;> simp
    rw [given]
    constructor
    · intro spent
      rw [noted] at spent
      exact (charged_iff.mp spent).imp And.left id
    · rintro (spent | overran)
      · exact course.exhausted_visit spent
      · rw [noted]
        exact charged_iff.mpr (.inr overran)
  · have unsettled : (u.closeFile s.cwd file).loaded.contains file = s.loaded.contains file := by
      rw [Bool.eq_iff_iff, PathSet.contains_iff_count, PathSet.contains_iff_count]
      show 0 < u.loaded.count file ↔ _
      rw [course.loaded_of_open (contains_openFile _ file)]
      rfl
    rw [loaded_fileEnded, unsettled, Path.same_refl, Bool.and_true]
    show (_ || !u.exhausted) = _
    cases u.exhausted <;> rfl

def requiresAfterDepth : String :=
  "\x7b\"type\":\"call\",\"func\":\x7b\"type\":\"name\",\"id\":\"require\"\x7d," ++
    "\"args\":\x7b\"positional\":[\x7b\"type\":\"string\",\"id\":\"b\"\x7d," ++
    "\x7b\"type\":\"array\",\"elts\":[\x7b\"type\":\"void\"\x7d]\x7d]\x7d\x7d"

def beforeRequiresAfterDepth (maxDepth : Nat) : Session where
  options := { cacheDir := ⟨"cache"⟩, diskCache := false, maxDepth }
  files := { root := .folder [("a.rb", .file requiresAfterDepth.toUTF8),
      ("b.rb", .file "\x7b\"type\":\"void\"\x7d".toUTF8)] }
  cache := { dumper := .content }

theorem load_charged_required :
    ∃ result t events, load (tell 2) ⟨"/a.rb"⟩ false (beforeRequiresAfterDepth 2) = (result, t, events) ∧
      (result = none ↔ Overran [⟨"/a.rb"⟩] events) ∧ t.loaded.contains ⟨"/a.rb"⟩ = result.isSome := by
  have settled : (beforeRequiresAfterDepth 2).files.settle ⟨"/a.rb"⟩ = ⟨"/a.rb"⟩ := by decide +kernel
  have present : ((beforeRequiresAfterDepth 2).fetch ⟨"/a.rb"⟩).1 = some 0 := by decide +kernel
  have fits : (((beforeRequiresAfterDepth 2).fetch ⟨"/a.rb"⟩).2.cache.trees[0]?.getD default).size ≤
      (beforeRequiresAfterDepth 2).options.maxNodes := by
    decide +kernel
  have left : 2 = (beforeRequiresAfterDepth 2).options.maxDepth - (beforeRequiresAfterDepth 2).depth := rfl
  have again : false = true ∨ (beforeRequiresAfterDepth 2).loaded.contains ⟨"/a.rb"⟩ = false := .inr rfl
  obtain ⟨result, t, events, -, told, given, counted, -⟩ := load_charged left settled rfl again present fits
  exact ⟨result, t, events, told, given.trans (or_iff_right Bool.false_ne_true), counted⟩

/-- The depth is exceeded by the first file, and the file that it requires next is given up for
that. The first one counts as loaded. -/
theorem required_charged :
    ∃ s result t events, load (tell (s.options.maxDepth - s.depth)) ⟨"/a.rb"⟩ false s = (result, t, events) ∧
      s.exhausted = false ∧ s.importStack.paths = [] ∧
      (∃ e ∈ events, e.Overruns [⟨"/a.rb"⟩]) ∧ t.loaded.contains ⟨"/a.rb"⟩ = true ∧
      (∃ e ∈ events, e.Opens [⟨"/a.rb"⟩]) ∧ (∀ e ∈ events, ¬e.Overruns [⟨"/a.rb"⟩, ⟨"/b.rb"⟩]) ∧
      t.loaded.contains ⟨"/b.rb"⟩ = false := by
  refine ⟨beforeRequiresAfterDepth 2, _, _, _, rfl, rfl, rfl, ?_⟩
  decide +kernel

end Analysis

end RubyInfer
