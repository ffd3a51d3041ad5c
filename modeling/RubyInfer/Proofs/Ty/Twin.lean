import Mathlib.Data.List.Forall2
import RubyInfer.Proofs.Ty.Union

/-!
# Types of two sessions

Two sessions may number what they have in common differently. `shift` carries a type over, where all
functions, classes and modules of the second session are ahead by the same offsets. Since offsets
respect the order of numbers, everything that inference does to types does the same on both sides.
`Within` says what a type speaks of at any depth, and `Twin` puts both together.
-/

namespace RubyInfer

/-- By how much the numbers of one session are ahead of those of another. -/
structure Offsets where
  scopes : Nat := 0
  functions : Nat := 0
  classes : Nat := 0
  modules : Nat := 0
  bindings : Nat := 0
  calls : Nat := 0

namespace Ty

structure Vocabulary where
  function : FunctionId → Prop
  classObj : ClassId → Prop
  moduleObj : ModuleId → Prop
  text : String → Prop

mutual
def shift (o : Offsets) : Ty → Ty
  | .list elem literals => .list (elem.shift o) literals
  | .dict key value => .dict (key.shift o) (value.shift o)
  | .function id => .function (id + o.functions)
  | .classObj id => .classObj (id + o.classes)
  | .moduleObj id => .moduleObj (id + o.modules)
  | .inst id => .inst (id + o.classes)
  | .union ms => .union (shiftAll o ms)
  | t => t

def shiftAll (o : Offsets) : List Ty → List Ty
  | [] => []
  | t :: ts => t.shift o :: shiftAll o ts
end

mutual
def Within (V : Vocabulary) : Ty → Prop
  | .str literal => ∀ w ∈ literal, V.text w
  | .list elem literals => elem.Within V ∧ ∀ w ∈ literals, V.text w
  | .dict key value => key.Within V ∧ value.Within V
  | .function id => V.function id
  | .classObj id => V.classObj id
  | .moduleObj id => V.moduleObj id
  | .inst id => V.classObj id
  | .union ms => AllWithin V ms
  | _ => True

def AllWithin (V : Vocabulary) : List Ty → Prop
  | [] => True
  | t :: ts => t.Within V ∧ AllWithin V ts
end

variable {o : Offsets} {V : Vocabulary}

theorem shiftAll_eq_map (ts : List Ty) : shiftAll o ts = ts.map (shift o) := by
  induction ts with
  | nil => simp [shiftAll]
  | cons t ts ih => simp [shiftAll, ih]

theorem allWithin_iff {ts : List Ty} : AllWithin V ts ↔ ∀ t ∈ ts, t.Within V := by
  induction ts with
  | nil => simp [AllWithin]
  | cons t ts ih => simp [AllWithin, ih]

/-! ## Order -/

theorem compare_add_right (a b k : Nat) : compare (a + k) (b + k) = compare a b := by
  simp [compare, compareOfLessAndEq]

mutual
theorem cmp_shift : ∀ a b : Ty, cmp (a.shift o) (b.shift o) = cmp a b
  | .unknown, b => by cases b <;> simp [shift, cmp, rank]
  | .nil, b => by cases b <;> simp [shift, cmp, rank]
  | .bool, b => by cases b <;> simp [shift, cmp, rank]
  | .num, b => by cases b <;> simp [shift, cmp, rank]
  | .str _, b => by cases b <;> simp [shift, cmp, rank]
  | .symbol _, b => by cases b <;> simp [shift, cmp, rank]
  | .list e _, b => by cases b <;> simp [shift, cmp, rank, cmp_shift e]
  | .dict k v, b => by cases b <;> simp [shift, cmp, rank, cmp_shift k, cmp_shift v]
  | .function _, b => by cases b <;> simp [shift, cmp, rank, compare_add_right]
  | .classObj _, b => by cases b <;> simp [shift, cmp, rank, compare_add_right]
  | .moduleObj _, b => by cases b <;> simp [shift, cmp, rank, compare_add_right]
  | .inst _, b => by cases b <;> simp [shift, cmp, rank, compare_add_right]
  | .union ms, b => by cases b <;> simp [shift, cmp, rank, cmpAll_shift ms]

theorem cmpAll_shift : ∀ as bs : List Ty, cmpAll (shiftAll o as) (shiftAll o bs) = cmpAll as bs
  | [], bs => by cases bs <;> simp [shiftAll, cmpAll]
  | a :: as, bs => by cases bs <;> simp [shiftAll, cmpAll, cmp_shift a, cmpAll_shift as]
end

theorem shift_inj {a b : Ty} : a.shift o = b.shift o ↔ a = b := by
  rw [← cmp_eq_iff, cmp_shift, cmp_eq_iff]

/-! ## Unions -/

theorem members_shift (t : Ty) : (t.shift o).members = t.members.map (shift o) := by
  cases t <;> simp [shift, members, shiftAll_eq_map]

theorem insertMember_shift (t : Ty) (ms : List Ty) :
    insertMember (t.shift o) (ms.map (shift o)) = (insertMember t ms).map (shift o) := by
  induction ms with
  | nil => simp [insertMember]
  | cons m ms ih =>
    simp only [List.map_cons, insertMember, cmp_shift]
    cases cmp t m <;> simp [ih]

theorem sorted_shift (ts : List Ty) : sorted (ts.map (shift o)) = (sorted ts).map (shift o) := by
  have general (seen : List Ty) :
      (ts.map (shift o)).foldl (fun ms t => insertMember t ms) (seen.map (shift o)) =
      (ts.foldl (fun ms t => insertMember t ms) seen).map (shift o) := by
    induction ts generalizing seen with
    | nil => rfl
    | cons t ts ih => rw [List.map_cons, List.foldl_cons, List.foldl_cons, insertMember_shift, ih]
  exact general []

theorem makeUnion_shift (ts : List Ty) : makeUnion (ts.map (shift o)) = (makeUnion ts).shift o := by
  have parts : (ts.map (shift o)).flatMap members = (ts.flatMap members).map (shift o) := by
    simp [List.flatMap_map, List.map_flatMap, members_shift]
  unfold makeUnion
  rw [parts, sorted_shift]
  match sorted (ts.flatMap members) with
  | [] => simp [shift]
  | [t] => simp
  | t :: u :: ms => simp [shift, shiftAll_eq_map]

theorem Within.of_mem {t m : Ty} (within : t.Within V) (mem : m ∈ t.members) : m.Within V := by
  cases t with
  | union ms =>
    simp only [Within, allWithin_iff] at within
    exact within m mem
  | _ =>
    obtain rfl := List.mem_singleton.mp mem
    exact within

theorem within_makeUnion {ts : List Ty} (within : ∀ t ∈ ts, t.Within V) : (makeUnion ts).Within V := by
  have each : ∀ m ∈ sorted (ts.flatMap members), m.Within V := by
    intro m mem
    obtain ⟨t, given, inner⟩ := List.mem_flatMap.mp (mem_sorted.mp mem)
    exact (within t given).of_mem inner
  unfold makeUnion
  split
  · simp [Within]
  · rename_i t single
    exact each t (by simp [single])
  · simpa only [Within, allWithin_iff] using each

mutual
theorem shape_shift : ∀ t : Ty, (t.shift o).shape = t.shape.shift o
  | .list elem _ => by simp [shift, shape, shape_shift elem]
  | .dict key value => by simp [shift, shape, shape_shift key, shape_shift value]
  | .union ms => by rw [shift, shape, shape, shapeAll_shift ms, makeUnion_shift]
  | .unknown | .nil | .bool | .num | .str _ | .symbol _ | .function _ | .classObj _ | .moduleObj
      _ | .inst _ => by
      simp [shift, shape]

theorem shapeAll_shift : ∀ ts : List Ty, shapeAll (shiftAll o ts) = (shapeAll ts).map (shift o)
  | [] => by simp [shiftAll, shapeAll]
  | t :: ts => by simp [shiftAll, shapeAll, shape_shift t, shapeAll_shift ts]
end

/-! ## Twins -/

/-- The second type is the first one carried over, and the first speaks of nothing else than it
may. -/
structure Twin (o : Offsets) (V : Vocabulary) (a b : Ty) : Prop where
  eq : b = a.shift o
  within : a.Within V

theorem forall₂_twin_iff {as bs : List Ty} :
    List.Forall₂ (Twin o V) as bs ↔ bs = as.map (shift o) ∧ ∀ a ∈ as, a.Within V := by
  constructor
  · intro twins
    induction twins with
    | nil => simp
    | cons twin _ ih =>
      obtain ⟨rfl, within⟩ := ih
      refine ⟨by rw [twin.eq, List.map_cons], ?_⟩
      exact List.forall_mem_cons.mpr ⟨twin.within, within⟩
  · rintro ⟨rfl, within⟩
    rw [List.forall₂_map_right_iff, List.forall₂_same]
    exact fun a mem => ⟨rfl, within a mem⟩

namespace Twin

variable {a b c d : Ty}

theorem eq_iff (first : Twin o V a b) (second : Twin o V c d) : b = d ↔ a = c := by
  rw [first.eq, second.eq, shift_inj]

theorem unknown : Twin o V .unknown .unknown := ⟨by simp [shift], by simp [Within]⟩

theorem nil : Twin o V .nil .nil := ⟨by simp [shift], by simp [Within]⟩

theorem bool : Twin o V .bool .bool := ⟨by simp [shift], by simp [Within]⟩

theorem num : Twin o V .num .num := ⟨by simp [shift], by simp [Within]⟩

theorem str {literal : Option String} (spoken : ∀ w ∈ literal, V.text w) :
    Twin o V (.str literal) (.str literal) :=
  ⟨by simp [shift], by simpa [Within] using spoken⟩

theorem symbol (literal : Option String) : Twin o V (.symbol literal) (.symbol literal) :=
  ⟨by simp [shift], by simp [Within]⟩

theorem function {id : FunctionId} (spoken : V.function id) :
    Twin o V (.function id) (.function (id + o.functions)) :=
  ⟨by simp [shift], by simpa [Within] using spoken⟩

theorem classObj {id : ClassId} (spoken : V.classObj id) :
    Twin o V (.classObj id) (.classObj (id + o.classes)) :=
  ⟨by simp [shift], by simpa [Within] using spoken⟩

theorem inst {id : ClassId} (spoken : V.classObj id) : Twin o V (.inst id) (.inst (id + o.classes)) :=
  ⟨by simp [shift], by simpa [Within] using spoken⟩

theorem moduleObj {id : ModuleId} (spoken : V.moduleObj id) :
    Twin o V (.moduleObj id) (.moduleObj (id + o.modules)) :=
  ⟨by simp [shift], by simpa [Within] using spoken⟩

theorem dict (key : Twin o V a b) (value : Twin o V c d) : Twin o V (.dict a c) (.dict b d) :=
  ⟨by simp [shift, key.eq, value.eq], by simpa only [Within] using And.intro key.within value.within⟩

theorem listOf (elem : Twin o V a b) : Twin o V (.listOf a) (.listOf b) :=
  ⟨by simp [Ty.listOf, shift, elem.eq], by simpa [Ty.listOf, Within] using elem.within⟩

theorem members (twin : Twin o V a b) : List.Forall₂ (Twin o V) a.members b.members := by
  rw [forall₂_twin_iff, twin.eq, members_shift]
  exact ⟨rfl, fun m mem => twin.within.of_mem mem⟩

theorem makeUnion {as bs : List Ty} (twins : List.Forall₂ (Twin o V) as bs) :
    Twin o V (.makeUnion as) (.makeUnion bs) := by
  obtain ⟨rfl, within⟩ := forall₂_twin_iff.mp twins
  exact ⟨makeUnion_shift as, within_makeUnion within⟩

theorem either (first : Twin o V a b) (second : Twin o V c d) : Twin o V (a.either c) (b.either d) := by
  unfold Ty.either
  simp only [first.eq_iff second]
  split
  · exact first
  · exact makeUnion (.cons first (.cons second .nil))

theorem eq_unknown_iff (twin : Twin o V a b) : b = .unknown ↔ a = .unknown := twin.eq_iff unknown

theorem join (first : Twin o V a b) (second : Twin o V c d) : Twin o V (a.join c) (b.join d) := by
  unfold Ty.join
  simp only [first.eq_unknown_iff, second.eq_unknown_iff]
  split
  · exact second
  · split
    · exact first
    · exact first.either second

mutual
theorem within_shape : ∀ t : Ty, t.Within V → t.shape.Within V
  | .str _, _ | .symbol _, _ => by simp [shape, Within]
  | .list elem _, within => by
      simp only [Within, shape] at within ⊢
      exact ⟨within_shape elem within.1, by simp⟩
  | .dict key value, within => by
      simp only [Within, shape] at within ⊢
      exact ⟨within_shape key within.1, within_shape value within.2⟩
  | .union ms, within => by
      simp only [Within] at within
      rw [shape]
      exact within_makeUnion (within_shapeAll ms within)
  | .unknown, within | .nil, within | .bool, within | .num, within | .function _, within | .classObj _, within
  | .moduleObj _, within | .inst _, within => by simpa only [shape] using within

theorem within_shapeAll : ∀ ts : List Ty, AllWithin V ts → ∀ t ∈ shapeAll ts, t.Within V
  | [], _ => by simp [shapeAll]
  | t :: ts, within => by
      simp only [AllWithin] at within
      simp only [shapeAll, List.forall_mem_cons]
      exact ⟨within_shape t within.1, within_shapeAll ts within.2⟩
end

section

variable (twin : Twin o V a b)
include twin

theorem shape : Twin o V a.shape b.shape :=
  ⟨by rw [twin.eq, shape_shift], within_shape a twin.within⟩

theorem unionOver {f g : Ty → Ty} (part : ∀ m n, Twin o V m n → Twin o V (f m) (g n)) :
    Twin o V (.makeUnion (a.members.map f)) (.makeUnion (b.members.map g)) := by
  apply makeUnion
  rw [List.forall₂_map_left_iff, List.forall₂_map_right_iff]
  exact twin.members.imp part

theorem iterated : Twin o V a.iterated b.iterated := by
  apply twin.unionOver
  rintro m _ ⟨rfl, within⟩
  cases m with
  | list elem literals =>
    simp only [Within] at within
    exact ⟨by simp [shift], within.1⟩
  | dict key value =>
    simp only [Within] at within
    exact ⟨by simp [shift], within.1⟩
  | _ => simpa [shift] using unknown

theorem destructured : Twin o V a.destructured b.destructured := by
  apply twin.unionOver
  rintro m _ ⟨rfl, within⟩
  cases m with
  | list elem literals =>
    simp only [Within] at within
    exact ⟨by simp [shift], within.1⟩
  | _ => simpa [shift] using unknown

theorem subscripted (sliced : Bool) : Twin o V (a.subscripted sliced) (b.subscripted sliced) := by
  apply twin.unionOver
  rintro m _ ⟨rfl, within⟩
  cases m with
  | list elem literals =>
    simp only [Within] at within
    have inner : Twin o V elem (elem.shift o) := ⟨rfl, within.1⟩
    cases sliced
    · simpa [shift] using inner
    · simpa [shift] using inner.listOf
  | dict key value =>
    simp only [Within] at within
    exact ⟨by simp [shift], within.2⟩
  | str literal =>
    have blank : Twin o V (.str none) (.str none) := str (by simp)
    simpa [shift] using blank
  | _ => simpa [shift] using unknown

theorem anyMember_eq {p : Ty → Bool} (kept : ∀ t : Ty, p (t.shift o) = p t) :
    b.anyMember p = a.anyMember p := by
  unfold anyMember
  rw [twin.eq, members_shift, List.any_map]
  congr 1
  funext t
  exact kept t

theorem isUnknown_eq : b.isUnknown = a.isUnknown := by
  simp only [isUnknown, twin.eq_unknown_iff]

theorem isList_eq : b.isList = a.isList := by
  rw [twin.eq]
  cases a <;> simp [shift, isList]

end

theorem binary (op : Op) (left : Twin o V a b) (right : Twin o V c d) :
    Twin o V (.binary op a c) (.binary op b d) := by
  have list (t : Ty) : isList (t.shift o) = isList t := by cases t <;> simp [shift, isList]
  have text (t : Ty) : isStr (t.shift o) = isStr t := by cases t <;> simp [shift, isStr]
  have number (t : Ty) : isNum (t.shift o) = isNum t := by cases t <;> simp [shift, isNum]
  unfold Ty.binary
  rw [left.anyMember_eq list, right.anyMember_eq list, left.anyMember_eq text,
    left.anyMember_eq number, right.anyMember_eq number,
    left.isUnknown_eq]
  repeat' split
  · exact bool
  · exact left.either right
  · exact (left.iterated.either right).listOf
  · exact (left.iterated.either right.iterated).listOf
  · exact str (by simp)
  · exact num
  · exact right
  · exact left

theorem unary (op : Op) (twin : Twin o V a b) : Twin o V (.unary op a) (.unary op b) := by
  unfold Ty.unary
  split
  · exact bool
  · exact twin

theorem forall₂_members {as bs : List Ty} (twins : List.Forall₂ (Twin o V) as bs) :
    List.Forall₂ (Twin o V) (as.flatMap Ty.members) (bs.flatMap Ty.members) := by
  induction twins with
  | nil => exact .nil
  | cons twin _ ih => exact List.rel_append twin.members ih

theorem caught {as bs : List Ty} (twins : List.Forall₂ (Twin o V) as bs) :
    Twin o V (.caught as) (.caught bs) := by
  apply makeUnion
  rw [List.forall₂_map_left_iff, List.forall₂_map_right_iff]
  refine (forall₂_members twins).imp ?_
  rintro m _ ⟨rfl, within⟩
  cases m with
  | classObj c =>
    simp only [Within] at within
    simpa [shift] using inst within
  | _ => simpa [shift] using unknown

theorem known {as bs : List Ty} (twins : List.Forall₂ (Twin o V) as bs) :
    Twin o V (.known as) (.known bs) := by
  apply makeUnion
  induction twins with
  | nil => exact .nil
  | cons twin _ ih =>
    rw [List.filter_cons, List.filter_cons, twin.isUnknown_eq]
    split
    · exact .cons twin ih
    · exact ih

theorem mapM_literal?_mem {ts : List Ty} {texts : List String}
    (found : ts.mapM literal? = some texts) {w : String} (mem : w ∈ texts) :
    .str (some w) ∈ ts := by
  induction ts generalizing texts with
  | nil =>
    cases found
    cases mem
  | cons t ts ih =>
    rw [List.mapM_cons] at found
    obtain ⟨text, here, rest⟩ := Option.bind_eq_some_iff.mp found
    obtain ⟨others, there, last⟩ := Option.bind_eq_some_iff.mp rest
    cases last
    rcases List.mem_cons.mp mem with rfl | later
    · cases t <;> simp_all [literal?]
    · exact List.mem_cons_of_mem t (ih there later)

theorem ofElements {as bs : List Ty} (twins : List.Forall₂ (Twin o V) as bs) :
    Twin o V (.ofElements as) (.ofElements bs) := by
  obtain ⟨rfl, within⟩ := forall₂_twin_iff.mp twins
  have same : (as.map (shift o)).mapM literal? = as.mapM literal? := by
    rw [List.mapM_map]
    congr 1
    funext t
    cases t <;> simp [shift, literal?]
  constructor
  · unfold Ty.ofElements
    rw [same, makeUnion_shift]
    simp [shift]
  · simp only [Ty.ofElements, Within]
    refine ⟨within_makeUnion within, fun w mem => ?_⟩
    cases found : as.mapM literal? with
    | none => simp [found] at mem
    | some texts =>
      rw [found, Option.getD_some] at mem
      have spoken := within _ (mapM_literal?_mem found mem)
      simpa [Within] using spoken

theorem filterMap_members {β γ : Type} (twin : Twin o V a b) {f : Ty → Option β} {g : Ty → Option γ}
    {rel : β → γ → Prop} (part : ∀ m n, Twin o V m n → Option.Rel rel (f m) (g n)) :
    List.Forall₂ rel (a.members.filterMap f) (b.members.filterMap g) :=
  List.rel_filterMap (fun m n twin => part m n twin) twin.members

theorem functions (twin : Twin o V a b) :
    List.Forall₂ (fun i j => j = i + o.functions ∧ V.function i) a.functions b.functions := by
  apply twin.filterMap_members
  rintro m _ ⟨rfl, within⟩
  cases m with
  | function id =>
    simp only [Within] at within
    simpa [shift] using within
  | _ => simp [shift]

theorem stringLiterals (twin : Twin o V a b) :
    b.stringLiterals = a.stringLiterals ∧ ∀ w ∈ a.stringLiterals, V.text w := by
  unfold Ty.stringLiterals
  constructor
  · rw [twin.eq, members_shift, List.flatMap_map]
    congr 1
    funext m
    cases m <;> simp [shift]
  · intro w mem
    obtain ⟨m, inner, listed⟩ := List.mem_flatMap.mp mem
    have within := twin.within.of_mem inner
    cases m <;> simp_all [Within]

end Twin

end Ty

end RubyInfer
