import Mathlib.Data.List.Forall2
import RubyInfer.Proofs.Ty.Semilattice

/-!
# Shapes

The shape of a type is what is left of it without literals. Dropping literals may make members of a
union equal, at any depth, so that unions inside shapes are smaller and in another order; since a
union depends on the set of its members alone, shapes of unions are unions of shapes all the same
(`shape_makeUnion`). `Reworded` puts other literals into a type: two types have one shape exactly if
one and the same type can be made of both in this way. The key of a call is made of shapes.
-/

namespace RubyInfer.Ty

theorem shapeAll_eq_map (ts : List Ty) : shapeAll ts = ts.map shape := by
  induction ts with
  | nil => rfl
  | cons t ts ih => rw [shapeAll, ih, List.map_cons]

theorem isUnion_shape {t : Ty} (single : t.isUnion = false) : t.shape.isUnion = false := by
  cases t <;> simp_all [isUnion, shape]

/-! ## Types without literals -/

mutual
def Bare : Ty → Prop
  | .str literal => literal = none
  | .symbol literal => literal = none
  | .list elem literals => elem.Bare ∧ literals = []
  | .dict key value => key.Bare ∧ value.Bare
  | .union ms => AllBare ms
  | _ => True

def AllBare : List Ty → Prop
  | [] => True
  | t :: ts => t.Bare ∧ AllBare ts
end

theorem allBare_iff {ts : List Ty} : AllBare ts ↔ ∀ t ∈ ts, t.Bare := by
  induction ts with
  | nil => simp [AllBare]
  | cons t ts ih => simp [AllBare, ih]

theorem Bare.of_mem {t m : Ty} (bare : t.Bare) (mem : m ∈ t.members) : m.Bare := by
  cases t with
  | union ms =>
    rw [Bare, allBare_iff] at bare
    exact bare m mem
  | _ =>
    obtain rfl := List.mem_singleton.mp mem
    exact bare

theorem bare_makeUnion {ts : List Ty} (bare : ∀ t ∈ ts, t.Bare) : (makeUnion ts).Bare := by
  have each : ∀ m ∈ sorted (ts.flatMap members), m.Bare := by
    intro m mem
    obtain ⟨t, given, inner⟩ := List.mem_flatMap.mp (mem_sorted.mp mem)
    exact (bare t given).of_mem inner
  unfold makeUnion
  split
  · simp [Bare]
  · rename_i t single
    exact each t (by simp [single])
  · simpa only [Bare, allBare_iff] using each

mutual
theorem bare_shape : ∀ t : Ty, t.shape.Bare
  | .list elem _ => by simp [shape, Bare, bare_shape elem]
  | .dict key value => by simp [shape, Bare, bare_shape key, bare_shape value]
  | .union ms => by
      rw [shape]
      exact bare_makeUnion (bare_shapeAll ms)
  | .unknown | .nil | .bool | .num | .str _ | .symbol _ | .function _ | .classObj _ | .moduleObj
      _ | .inst _ => by
      simp [shape, Bare]

theorem bare_shapeAll : ∀ ts : List Ty, ∀ t ∈ shapeAll ts, t.Bare
  | [] => by simp [shapeAll]
  | t :: ts => by
      rw [shapeAll, List.forall_mem_cons]
      exact ⟨bare_shape t, bare_shapeAll ts⟩
end

mutual
theorem shape_of_bare : ∀ t : Ty, t.Canonical → t.Bare → t.shape = t
  | .str _, _, bare | .symbol _, _, bare => by
      rw [Bare] at bare
      rw [shape, bare]
  | .list elem _, canonical, bare => by
      rw [Canonical] at canonical
      rw [Bare] at bare
      rw [shape, shape_of_bare elem canonical.1 bare.1, bare.2]
  | .dict key value, canonical, bare => by
      rw [Canonical] at canonical
      rw [Bare] at bare
      rw [shape, shape_of_bare key canonical.1 bare.1, shape_of_bare value canonical.2 bare.2]
  | .union ms, canonical, bare => by
      have whole : makeUnion ms = .union ms := canonical.normal.makeUnion_members
      rw [Canonical] at canonical
      rw [Bare] at bare
      rw [shape, shapeAll_of_bare ms canonical.2.2 bare, whole]
  | .unknown, _, _ | .nil, _, _ | .bool, _, _ | .num, _, _ | .function _, _, _ | .classObj _, _,
      _ | .moduleObj _, _, _
  | .inst _, _, _ => by simp [shape]

theorem shapeAll_of_bare : ∀ ts : List Ty, CanonicalMembers ts → AllBare ts → shapeAll ts = ts
  | [], _, _ => by simp [shapeAll]
  | t :: ts, canonical, bare => by
      rw [CanonicalMembers] at canonical
      rw [AllBare] at bare
      rw [shapeAll, shape_of_bare t canonical.1.2 bare.1, shapeAll_of_bare ts canonical.2 bare.2]
end

/-! ## Unions -/

theorem normal_of_mem_shapes {ts : List Ty} : ∀ s ∈ ts.map shape, s.Normal := by
  intro s mem
  obtain ⟨t, -, rfl⟩ := List.mem_map.mp mem
  exact (canonical_shape t).normal

theorem mem_members_shape {t u : Ty} (normal : t.Normal) :
    u ∈ t.shape.members ↔ ∃ m ∈ t.members, m.shape = u := by
  have alone {m : Ty} (single : m.isUnion = false) : m.shape.members = [m.shape] :=
    members_of_not_union (isUnion_shape single)
  cases t with
  | union ms =>
    have some : ms.map shape ≠ [] := by simpa [members] using normal.members_ne_nil
    rw [shape, shapeAll_eq_map, mem_members_makeUnion_iff normal_of_mem_shapes some]
    constructor
    · rintro ⟨_, given, mem⟩
      obtain ⟨m, inner, rfl⟩ := List.mem_map.mp given
      rw [alone (normal.single m inner)] at mem
      exact ⟨m, inner, (List.mem_singleton.mp mem).symm⟩
    · rintro ⟨m, inner, rfl⟩
      exact ⟨m.shape, List.mem_map_of_mem inner, by simp [alone (normal.single m inner)]⟩
  | _ =>
    rw [alone rfl, List.mem_singleton]
    simp [members, eq_comm]

theorem shape_makeUnion {ts : List Ty} (normal : ∀ t ∈ ts, t.Normal) :
    (makeUnion ts).shape = makeUnion (ts.map shape) := by
  by_cases none : ts = []
  · subst none
    simp [makeUnion, sorted, shape]
  apply (canonical_shape _).normal.ext (normal_makeUnion normal_of_mem_shapes)
  intro u
  calc u ∈ (makeUnion ts).shape.members
    _ ↔ ∃ m ∈ (makeUnion ts).members, m.shape = u := mem_members_shape (normal_makeUnion normal)
    _ ↔ ∃ t ∈ ts, ∃ m ∈ t.members, m.shape = u := by
        simp only [mem_members_makeUnion_iff normal none]
        grind
    _ ↔ ∃ t ∈ ts, u ∈ t.shape.members := by
        refine exists_congr fun t => and_congr_right fun given => ?_
        rw [mem_members_shape (normal t given)]
    _ ↔ u ∈ (makeUnion (ts.map shape)).members := by
        rw [mem_members_makeUnion_iff normal_of_mem_shapes (by simpa using none)]
        simp

theorem shape_either {a b : Ty} (left : a.Normal) (right : b.Normal) :
    (a.either b).shape = a.shape.either b.shape := by
  rw [left.either_eq right, (canonical_shape a).normal.either_eq (canonical_shape b).normal,
    shape_makeUnion (by simp [left, right])]
  rfl

/-! ## Other literals -/

/-- The second type is the first one with other literals at any depth, or with none; the unions
around them are put together anew. -/
inductive Reworded : Ty → Ty → Prop
  | refl (t : Ty) : Reworded t t
  | str (old new : Option String) : Reworded (.str old) (.str new)
  | symbol (old new : Option String) : Reworded (.symbol old) (.symbol new)
  | list {elem elem' : Ty} (old new : List String) (inner : Reworded elem elem') :
      Reworded (.list elem old) (.list elem' new)
  | dict {key key' value value' : Ty} (first : Reworded key key') (second : Reworded value value') :
      Reworded (.dict key value) (.dict key' value')
  | union {ms ms' : List Ty} (each : List.Forall₂ Reworded ms ms') : Reworded (.union ms) (makeUnion ms')

mutual
theorem reworded_shape : ∀ t : Ty, Reworded t t.shape
  | .str _ => by
      rw [shape]
      exact .str _ _
  | .symbol _ => by
      rw [shape]
      exact .symbol _ _
  | .list elem _ => by
      rw [shape]
      exact .list _ _ (reworded_shape elem)
  | .dict key value => by
      rw [shape]
      exact .dict (reworded_shape key) (reworded_shape value)
  | .union ms => by
      rw [shape]
      exact .union (reworded_shapeAll ms)
  | .unknown | .nil | .bool | .num | .function _ | .classObj _ | .moduleObj _ | .inst _ => by
      simp only [shape]
      exact .refl _

theorem reworded_shapeAll : ∀ ts : List Ty, List.Forall₂ Reworded ts (shapeAll ts)
  | [] => by
      rw [shapeAll]
      exact .nil
  | t :: ts => by
      rw [shapeAll]
      exact .cons (reworded_shape t) (reworded_shapeAll ts)
end

mutual
theorem Reworded.keeps : ∀ {a b : Ty}, Reworded a b → a.Canonical → b.Normal ∧ b.shape = a.shape
  | _, _, .refl t, canonical => ⟨canonical.normal, rfl⟩
  | _, _, .str _ _, _ | _, _, .symbol _ _, _ => ⟨normal_of_not_union rfl, by simp [shape]⟩
  | _, _, .list _ _ inner, canonical => by
      rw [Canonical] at canonical
      refine ⟨normal_of_not_union rfl, ?_⟩
      rw [shape, shape, (inner.keeps canonical.1).2]
  | _, _, .dict first second, canonical => by
      rw [Canonical] at canonical
      refine ⟨normal_of_not_union rfl, ?_⟩
      rw [shape, shape, (first.keeps canonical.1).2, (second.keeps canonical.2).2]
  | _, _, .union each, canonical => by
      rw [Canonical] at canonical
      obtain ⟨normal, shapes⟩ := keeps_each each canonical.2.2
      refine ⟨normal_makeUnion normal, ?_⟩
      rw [shape_makeUnion normal, shapes, shape, shapeAll_eq_map]

theorem keeps_each : ∀ {ms ms' : List Ty}, List.Forall₂ Reworded ms ms' → CanonicalMembers ms →
    (∀ m ∈ ms', m.Normal) ∧ ms'.map shape = ms.map shape
  | _, _, .nil, _ => by simp
  | _, _, .cons first rest, canonical => by
      rw [CanonicalMembers] at canonical
      obtain ⟨normal, shape⟩ := first.keeps canonical.1.2
      obtain ⟨normals, shapes⟩ := keeps_each rest canonical.2
      constructor
      · simpa [normal] using normals
      · simp [shape, shapes]
end

theorem Reworded.shape_eq {a b : Ty} (reworded : Reworded a b) (canonical : a.Canonical) :
    b.shape = a.shape :=
  (reworded.keeps canonical).2

theorem shape_eq_iff {a b : Ty} (left : a.Canonical) (right : b.Canonical) :
    a.shape = b.shape ↔ ∃ c, Reworded a c ∧ Reworded b c := by
  constructor
  · intro same
    exact ⟨a.shape, reworded_shape a, same ▸ reworded_shape b⟩
  · rintro ⟨c, first, second⟩
    rw [← first.shape_eq left, second.shape_eq right]

theorem shapes_eq_of_reworded {ts us : List Ty} (reworded : List.Forall₂ Reworded ts us)
    (canonical : ∀ t ∈ ts, t.Canonical) :
    us.map shape = ts.map shape := by
  induction reworded with
  | nil => rfl
  | cons first _ ih =>
    rw [List.forall_mem_cons] at canonical
    rw [List.map_cons, List.map_cons, first.shape_eq canonical.1, ih canonical.2]

/-- **Shapes.** Taking the shape is an idempotent homomorphism of unions onto the canonical types
without literals: it leaves these as they are, and forgets of a type exactly what its literals are.
So the key of a call does not depend on them. -/
theorem shape_homomorphism :
    (∀ t : Ty, t.Canonical → t.shape.shape = t.shape ∧ t.shape.Canonical ∧ t.shape.Bare ∧
      (t.shape = t ↔ t.Bare)) ∧
    (∀ ts : List Ty, (∀ t ∈ ts, t.Canonical) → (makeUnion ts).shape = makeUnion (ts.map shape)) ∧
    (∀ a b : Ty, a.Canonical → b.Canonical → (a.either b).shape = a.shape.either b.shape) ∧
    (∀ a b : Ty, a.Canonical → Reworded a b → b.shape = a.shape) ∧
    (∀ a b : Ty, a.Canonical → b.Canonical → a.shape = b.shape → ∃ c, Reworded a c ∧ Reworded b c) ∧
    ∀ (f : FunctionId) (receiver receiver' : Ty) (call call' : CallArgs), receiver.Canonical →
      (∀ t ∈ call.positional, t.Canonical) →
      Reworded receiver receiver' → List.Forall₂ Reworded call.positional call'.positional →
      Session.callKey f receiver' call' = Session.callKey f receiver call := by
  refine ⟨fun t canonical => ⟨?_, canonical_shape t, bare_shape t, ?_⟩, fun ts canonical => ?_,
    fun a b left right => ?_,
    fun a b canonical reworded => reworded.shape_eq canonical, fun a b left right =>
      (shape_eq_iff left right).mp,
    fun f receiver receiver' call call' canonical args first rest => ?_⟩
  · exact shape_of_bare _ (canonical_shape t) (bare_shape t)
  · exact ⟨fun same => same ▸ bare_shape t, shape_of_bare t canonical⟩
  · exact shape_makeUnion fun t mem => (canonical t mem).normal
  · exact shape_either left.normal right.normal
  · rw [Session.callKey, Session.callKey, first.shape_eq canonical, shapes_eq_of_reworded rest args]

def wordyDict : Ty :=
  .dict (.union [.str (some "a"), .str (some "b")]) (.list (.union [.str (some "p"), .symbol (some "q")]) [])

def plainDict : Ty := .dict (.str none) (.list (.union [.str none, .symbol (some "z")]) ["w"])

theorem shape_homomorphism_wordy :
    wordyDict.Canonical ∧ Reworded wordyDict plainDict ∧ plainDict.shape = wordyDict.shape ∧
    wordyDict.shape = .dict (.str none) (.list (.union [.str none, .symbol none]) []) ∧
    (wordyDict.either .nil).shape = wordyDict.shape.either .nil ∧
    Session.callKey 0 .nil { positional := [plainDict] } =
      Session.callKey 0 .nil { positional := [wordyDict] } := by
  have canonical : wordyDict.Canonical := by decide +kernel
  have key : Reworded (.union [.str (some "a"), .str (some "b")]) (makeUnion [.str none, .str none]) :=
    .union (.cons (.str _ _) (.cons (.str _ _) .nil))
  have value : Reworded (.union [.str (some "p"), .symbol (some "q")])
      (makeUnion [.str none, .symbol (some "z")]) :=
    .union (.cons (.str _ _) (.cons (.symbol _ _) .nil))
  have reworded : Reworded wordyDict plainDict := .dict key (.list _ _ value)
  obtain ⟨-, -, pairs, words, -, keys⟩ := shape_homomorphism
  refine ⟨canonical, reworded, words _ _ canonical reworded, by
    decide +kernel, pairs _ _ canonical (by decide), ?_⟩
  exact keys 0 .nil .nil _ _ (by decide) (by simpa using canonical) (.refl _) (.cons reworded .nil)

end RubyInfer.Ty
