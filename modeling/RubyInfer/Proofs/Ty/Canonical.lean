import RubyInfer.Proofs.Ty.Order

/-!
# Canonical types

A union is kept as the strictly ascending list of two or more members that are no unions themselves,
and a list has literals only where its element type is the union of them. `canonical_closed` says
that every way of putting types together or taking them apart keeps this at every depth.
-/

namespace RubyInfer.Ty

def ofLiterals (literals : List String) : List Ty := literals.map fun text => .str (some text)

mutual
def Canonical : Ty → Prop
  | .list elem literals => elem.Canonical ∧ (literals ≠ [] → elem = makeUnion (ofLiterals literals))
  | .dict key value => key.Canonical ∧ value.Canonical
  | .union ms => 2 ≤ ms.length ∧ Ascending ms ∧ CanonicalMembers ms
  | _ => True

def CanonicalMembers : List Ty → Prop
  | [] => True
  | t :: ts => (t.isUnion = false ∧ t.Canonical) ∧ CanonicalMembers ts
end

mutual
def decideCanonical : (t : Ty) → Decidable t.Canonical
  | .list elem _ =>
    have := elem.decideCanonical
    decidable_of_iff (elem.Canonical ∧ _) (by rw [Canonical])
  | .dict key value =>
    have := key.decideCanonical
    have := value.decideCanonical
    decidable_of_iff (key.Canonical ∧ value.Canonical) (by rw [Canonical])
  | .union ms =>
    have := decideCanonicalMembers ms
    decidable_of_iff (2 ≤ ms.length ∧ Ascending ms ∧ CanonicalMembers ms) (by rw [Canonical])
  | .unknown | .nil | .bool | .num | .str _ | .symbol _ | .function _ | .classObj _ | .moduleObj
      _ | .inst _ =>
    .isTrue (by rw [Canonical] <;> simp)

def decideCanonicalMembers : (ts : List Ty) → Decidable (CanonicalMembers ts)
  | [] => .isTrue (by rw [CanonicalMembers]; trivial)
  | t :: ts =>
    have := t.decideCanonical
    have := decideCanonicalMembers ts
    decidable_of_iff ((t.isUnion = false ∧ t.Canonical) ∧ CanonicalMembers ts) (by rw [CanonicalMembers])
end

instance : DecidablePred Canonical := decideCanonical

theorem canonicalMembers_iff {ts : List Ty} :
    CanonicalMembers ts ↔ ∀ t ∈ ts, t.isUnion = false ∧ t.Canonical := by
  induction ts with
  | nil => simp [CanonicalMembers]
  | cons t ts ih => simp [CanonicalMembers, ih]

theorem Canonical.of_mem {t m : Ty} (canonical : t.Canonical) (mem : m ∈ t.members) :
    m.isUnion = false ∧ m.Canonical := by
  cases t with
  | union ms =>
    rw [Canonical, canonicalMembers_iff] at canonical
    exact canonical.2.2 m mem
  | _ =>
    obtain rfl := List.mem_singleton.mp mem
    exact ⟨rfl, canonical⟩

theorem canonical_makeUnion {ts : List Ty} (canonical : ∀ t ∈ ts, t.Canonical) :
    (makeUnion ts).Canonical := by
  have each : ∀ m ∈ sorted (ts.flatMap members), m.isUnion = false ∧ m.Canonical := by
    intro m mem
    obtain ⟨t, given, inner⟩ := List.mem_flatMap.mp (mem_sorted.mp mem)
    exact (canonical t given).of_mem inner
  have ascending := ascending_sorted (ts.flatMap members)
  unfold makeUnion
  split
  · simp [Canonical]
  · rename_i t single
    exact (each t (by simp [single])).2
  · rename_i none one
    rw [Canonical, canonicalMembers_iff]
    refine ⟨?_, ascending, each⟩
    match found : sorted (ts.flatMap members) with
    | [] => exact absurd found none
    | [t] => exact absurd found (one t)
    | _ :: _ :: _ => simp

theorem eq_ofLiterals {elems : List Ty} {literals : List String} (all : elems.mapM literal? = some literals) :
    elems = ofLiterals literals := by
  induction elems generalizing literals with
  | nil =>
    cases all
    rfl
  | cons t elems ih =>
    rw [List.mapM_cons, Option.bind_eq_bind, Option.bind_eq_some_iff] at all
    obtain ⟨text, here, rest⟩ := all
    obtain ⟨texts, later, same⟩ := Option.bind_eq_some_iff.mp rest
    cases same
    have literal : t = .str (some text) := by
      cases t <;> simp_all [literal?]
    rw [ih later, literal]
    rfl

theorem canonical_ofElements {elems : List Ty} (canonical : ∀ t ∈ elems, t.Canonical) :
    (ofElements elems).Canonical := by
  rw [ofElements, Canonical]
  refine ⟨canonical_makeUnion canonical, fun some => ?_⟩
  cases all : elems.mapM literal? with
  | none => simp [all] at some
  | some literals => rw [eq_ofLiterals all, Option.getD_some]

mutual
theorem canonical_shape : ∀ t : Ty, t.shape.Canonical
  | .list elem _ => by simp [shape, Canonical, canonical_shape elem]
  | .dict key value => by simp [shape, Canonical, canonical_shape key, canonical_shape value]
  | .union ms => by
      rw [shape]
      exact canonical_makeUnion (canonical_shapeAll ms)
  | .unknown | .nil | .bool | .num | .str _ | .symbol _ | .function _ | .classObj _ | .moduleObj
      _ | .inst _ => by
      simp [shape, Canonical]

theorem canonical_shapeAll : ∀ ts : List Ty, ∀ t ∈ shapeAll ts, t.Canonical
  | [] => by simp [shapeAll]
  | t :: ts => by
      rw [shapeAll, List.forall_mem_cons]
      exact ⟨canonical_shape t, canonical_shapeAll ts⟩
end

theorem canonical_closed : Closed Canonical where
  unknown := by simp [Canonical]
  nil := by simp [Canonical]
  bool := by simp [Canonical]
  num := by simp [Canonical]
  str _ := by simp [Canonical]
  symbol _ := by simp [Canonical]
  function _ := by simp [Canonical]
  classObj _ := by simp [Canonical]
  moduleObj _ := by simp [Canonical]
  inst _ := by simp [Canonical]
  listOf canonical := by simpa [Canonical, listOf] using canonical
  ofElements := canonical_ofElements
  dict key value := by simpa [Canonical] using And.intro key value
  makeUnion := canonical_makeUnion
  shape _ := canonical_shape _
  member canonical mem := (canonical.of_mem mem).2
  elem canonical := by rw [Canonical] at canonical; exact canonical.1
  key canonical := by rw [Canonical] at canonical; exact canonical.1
  value canonical := by rw [Canonical] at canonical; exact canonical.2

end RubyInfer.Ty
