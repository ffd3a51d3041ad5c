import RubyInfer.Ty.Operator

/-!
# Members of unions

Putting types together loses none of their members as long as no member of a union is itself a
union. `Flat` says so of a type and of all types inside it. `Closed` collects what inference asks of
a property of types in order to keep it, and `flat_closed` says that being flat is such a property.
-/

namespace RubyInfer.Ty

theorem mem_insertMember {t x : Ty} {ms : List Ty} : x ∈ insertMember t ms ↔ x = t ∨ x ∈ ms := by
  induction ms with
  | nil => simp [insertMember]
  | cons m ms ih =>
    cases order : cmp t m with
    | lt => simp [insertMember, order]
    | eq =>
      obtain rfl := (cmp_eq_iff t m).mp order
      simp [insertMember, order]
    | gt =>
      simp only [insertMember, order, List.mem_cons, ih]
      exact or_left_comm

theorem mem_sorted {x : Ty} {ts : List Ty} : x ∈ sorted ts ↔ x ∈ ts := by
  have general (seen : List Ty) :
      x ∈ ts.foldl (fun ms t => insertMember t ms) seen ↔ x ∈ ts ∨ x ∈ seen := by
    induction ts generalizing seen with
    | nil => simp
    | cons t ts ih =>
      rw [List.foldl_cons, ih, mem_insertMember, List.mem_cons, or_assoc]
      exact or_left_comm
  simpa [sorted] using general []

/-! ## Flat types -/

mutual
def Flat : Ty → Prop
  | .list elem _ => elem.Flat
  | .dict key value => key.Flat ∧ value.Flat
  | .union ms => FlatMembers ms
  | _ => True

def FlatMembers : List Ty → Prop
  | [] => True
  | t :: ts => (t.isUnion = false ∧ t.Flat) ∧ FlatMembers ts
end

theorem flatMembers_iff {ts : List Ty} : FlatMembers ts ↔ ∀ t ∈ ts, t.isUnion = false ∧ t.Flat := by
  induction ts with
  | nil => simp [FlatMembers]
  | cons t ts ih => simp [FlatMembers, ih]

theorem members_of_not_union {t : Ty} (single : t.isUnion = false) : t.members = [t] := by
  cases t <;> simp_all [isUnion, members]

theorem Flat.of_mem {t m : Ty} (flat : t.Flat) (mem : m ∈ t.members) : m.isUnion = false ∧ m.Flat := by
  cases t with
  | union ms =>
    simp only [Flat, flatMembers_iff] at flat
    exact flat m mem
  | _ =>
    obtain rfl := List.mem_singleton.mp mem
    exact ⟨rfl, flat⟩

theorem flat_of_mem_sorted {ts : List Ty} (flat : ∀ t ∈ ts, t.Flat) {m : Ty}
    (mem : m ∈ sorted (ts.flatMap members)) :
    m.isUnion = false ∧ m.Flat := by
  obtain ⟨t, given, inner⟩ := List.mem_flatMap.mp (mem_sorted.mp mem)
  exact (flat t given).of_mem inner

theorem flat_makeUnion {ts : List Ty} (flat : ∀ t ∈ ts, t.Flat) : (makeUnion ts).Flat := by
  have each := fun m => @flat_of_mem_sorted ts flat m
  unfold makeUnion
  split
  · trivial
  · rename_i t single
    exact (each t (by simp [single])).2
  · simp only [Flat, flatMembers_iff]
    exact each

theorem mem_members_makeUnion {ts : List Ty} (flat : ∀ t ∈ ts, t.Flat) {t m : Ty} (given : t ∈ ts)
    (mem : m ∈ t.members) :
    m ∈ (makeUnion ts).members := by
  have listed : m ∈ sorted (ts.flatMap members) := mem_sorted.mpr (List.mem_flatMap.mpr ⟨t, given, mem⟩)
  have each := fun m => @flat_of_mem_sorted ts flat m
  unfold makeUnion
  split
  · simp_all
  · rename_i u single
    rw [members_of_not_union (each u (by simp [single])).1, ← single]
    exact listed
  · exact listed

theorem mem_members_either {a b m : Ty} (flatLeft : a.Flat) (flatRight : b.Flat) (mem : m ∈ a.members) :
    m ∈ (a.either b).members := by
  unfold either
  split
  · exact mem
  · exact mem_members_makeUnion (by simp [flatLeft, flatRight]) List.mem_cons_self mem

theorem mem_members_join {a b m : Ty} (flatLeft : a.Flat) (flatRight : b.Flat) (mem : m ∈ a.members)
    (known : m ≠ .unknown) : m ∈ (a.join b).members := by
  unfold join
  split
  · rename_i blank
    subst blank
    exact absurd (List.mem_singleton.mp mem) known
  · split
    · exact mem
    · exact mem_members_either flatLeft flatRight mem

/-! ## Properties that inference keeps -/

structure Closed (ok : Ty → Prop) : Prop where
  unknown : ok .unknown
  nil : ok .nil
  bool : ok .bool
  num : ok .num
  str (literal : Option String) : ok (.str literal)
  symbol (literal : Option String) : ok (.symbol literal)
  function (id : FunctionId) : ok (.function id)
  classObj (id : ClassId) : ok (.classObj id)
  moduleObj (id : ModuleId) : ok (.moduleObj id)
  inst (id : ClassId) : ok (.inst id)
  listOf {elem : Ty} : ok elem → ok (.listOf elem)
  ofElements {elems : List Ty} : (∀ t ∈ elems, ok t) → ok (.ofElements elems)
  dict {key value : Ty} : ok key → ok value → ok (.dict key value)
  makeUnion {ts : List Ty} : (∀ t ∈ ts, ok t) → ok (.makeUnion ts)
  shape {t : Ty} : ok t → ok t.shape
  member {t m : Ty} : ok t → m ∈ t.members → ok m
  elem {elem : Ty} {literals : List String} : ok (.list elem literals) → ok elem
  key {key value : Ty} : ok (.dict key value) → ok key
  value {key value : Ty} : ok (.dict key value) → ok value

namespace Closed

variable {ok : Ty → Prop} (closed : Closed ok) {t : Ty}
include closed

theorem either {a b : Ty} (ha : ok a) (hb : ok b) : ok (a.either b) := by
  unfold Ty.either
  split
  · exact ha
  · exact closed.makeUnion (by simp [ha, hb])

theorem join {a b : Ty} (ha : ok a) (hb : ok b) : ok (a.join b) := by
  unfold Ty.join
  split
  · exact hb
  · split
    · exact ha
    · exact closed.either ha hb

theorem unionOver (ht : ok t) {f : Ty → Ty} (part : ∀ m, ok m → ok (f m)) :
    ok (.makeUnion (t.members.map f)) := by
  apply closed.makeUnion
  intro u mem
  obtain ⟨m, inner, rfl⟩ := List.mem_map.mp mem
  exact part m (closed.member ht inner)

theorem iterated (ht : ok t) : ok t.iterated := by
  refine closed.unionOver ht fun m hm => ?_
  cases m with
  | list elem literals => exact closed.elem hm
  | dict key value => exact closed.key hm
  | _ => exact closed.unknown

theorem destructured (ht : ok t) : ok t.destructured := by
  refine closed.unionOver ht fun m hm => ?_
  cases m with
  | list elem literals => exact closed.elem hm
  | _ => exact closed.unknown

theorem subscripted (ht : ok t) (sliced : Bool) : ok (t.subscripted sliced) := by
  refine closed.unionOver ht fun m hm => ?_
  cases m with
  | list elem literals =>
    cases sliced
    · exact closed.elem hm
    · exact closed.listOf (closed.elem hm)
  | dict key value => exact closed.value hm
  | str literal => exact closed.str none
  | _ => exact closed.unknown

theorem binary {op : Op} {l r : Ty} (hl : ok l) (hr : ok r) : ok (.binary op l r) := by
  unfold Ty.binary
  repeat' split
  · exact closed.bool
  · exact closed.either hl hr
  · exact closed.listOf (closed.either (closed.iterated hl) hr)
  · exact closed.listOf (closed.either (closed.iterated hl) (closed.iterated hr))
  · exact closed.str none
  · exact closed.num
  · exact hr
  · exact hl

theorem unary {op : Op} (ht : ok t) : ok (.unary op t) := by
  unfold Ty.unary
  split
  · exact closed.bool
  · exact ht

theorem caught (classes : List Ty) : ok (.caught classes) := by
  apply closed.makeUnion
  intro u mem
  obtain ⟨m, -, rfl⟩ := List.mem_map.mp mem
  cases m with
  | classObj c => exact closed.inst c
  | _ => exact closed.unknown

theorem known {ts : List Ty} (given : ∀ t ∈ ts, ok t) : ok (.known ts) :=
  closed.makeUnion fun t mem => given t (List.mem_filter.mp mem).1

end Closed

theorem true_closed : Closed (fun _ => True) := by
  constructor <;> simp

mutual
theorem flat_shape : ∀ t : Ty, t.Flat → t.shape.Flat
  | .list elem _, flat => by
      simp only [Flat, shape] at flat ⊢
      exact flat_shape elem flat
  | .dict key value, flat => by
      simp only [Flat, shape] at flat ⊢
      exact ⟨flat_shape key flat.1, flat_shape value flat.2⟩
  | .union ms, flat => by
      simp only [Flat] at flat
      rw [shape]
      exact flat_makeUnion (flat_shapeAll ms flat)
  | .unknown, _ | .nil, _ | .bool, _ | .num, _ | .str _, _ | .symbol _, _ | .function _, _ | .classObj _, _
  | .moduleObj _, _ | .inst _, _ => by simp [shape, Flat]

theorem flat_shapeAll : ∀ ts : List Ty, FlatMembers ts → ∀ t ∈ shapeAll ts, t.Flat
  | [], _ => by simp [shapeAll]
  | t :: ts, flat => by
      simp only [FlatMembers] at flat
      simp only [shapeAll, List.forall_mem_cons]
      exact ⟨flat_shape t flat.1.2, flat_shapeAll ts flat.2⟩
end

theorem flat_closed : Closed Flat where
  unknown := by simp [Flat]
  nil := by simp [Flat]
  bool := by simp [Flat]
  num := by simp [Flat]
  str _ := by simp [Flat]
  symbol _ := by simp [Flat]
  function _ := by simp [Flat]
  classObj _ := by simp [Flat]
  moduleObj _ := by simp [Flat]
  inst _ := by simp [Flat]
  listOf flat := by simpa [Flat, listOf] using flat
  ofElements flat := by simpa [Flat, ofElements] using flat_makeUnion flat
  dict flatKey flatValue := by simpa [Flat] using And.intro flatKey flatValue
  makeUnion := flat_makeUnion
  shape := flat_shape _
  member flat mem := (flat.of_mem mem).2
  elem flat := by simpa [Flat] using flat
  key flat := by simp only [Flat] at flat; exact flat.1
  value flat := by simp only [Flat] at flat; exact flat.2

end RubyInfer.Ty
