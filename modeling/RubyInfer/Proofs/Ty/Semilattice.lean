import Mathlib.Data.Multiset.Fold
import RubyInfer.Proofs.Ty.Canonical
import RubyInfer.Session.Apply

/-!
# Types form a semilattice

A union depends on the set of its members alone: `sorted` gives every set of types one ascending
list (`sorted_congr`). A type in normal form is the union of its own members, so it is known by them
(`Normal.ext`), and a union has the members of its parts and no others
(`mem_members_makeUnion_iff`). The laws of `either`, of `contains` and of `join` are read off from
these facts. Types that are collected one after the other may then come in any order and more than
once (`JoinLaws.foldl_congr`).
-/

namespace RubyInfer.Ty

variable {ts : List Ty} {s : Session} {t : Ty}

/-! ## Sets of members -/

theorem ascending_ext {as bs : List Ty} (left : Ascending as) (right : Ascending bs)
    (same : ∀ t, t ∈ as ↔ t ∈ bs) : as = bs := by
  have nodup {ts : List Ty} (ascending : Ascending ts) : ts.Nodup := by
    apply ascending.imp
    rintro a _ less rfl
    simp [(cmp_eq_iff a a).mpr rfl] at less
  apply List.Perm.eq_of_pairwise _ left right
    ((List.perm_ext_iff_of_nodup (nodup left) (nodup right)).mpr same)
  intro a b _ _ less more
  simp [← cmp_eq_gt_iff, less] at more

theorem sorted_congr {ts us : List Ty} (same : ∀ t, t ∈ ts ↔ t ∈ us) : sorted ts = sorted us := by
  apply ascending_ext (ascending_sorted ts) (ascending_sorted us)
  simpa [mem_sorted] using same

theorem makeUnion_congr {ts us : List Ty} (same : ∀ m, m ∈ ts.flatMap members ↔ m ∈ us.flatMap members) :
    makeUnion ts = makeUnion us := by
  rw [makeUnion, makeUnion, sorted_congr same]

structure Normal (t : Ty) : Prop where
  single : ∀ m ∈ t.members, m.isUnion = false
  whole : makeUnion [t] = t

theorem normal_of_not_union (single : t.isUnion = false) : t.Normal := by
  constructor
  · simp [members_of_not_union single, single]
  · simp [makeUnion, members_of_not_union single, sorted, insertMember]

theorem Canonical.normal (canonical : t.Canonical) : t.Normal := by
  cases t with
  | union ms =>
    refine ⟨fun m mem => (canonical.of_mem mem).1, ?_⟩
    rw [Canonical] at canonical
    obtain ⟨two, ascending, -⟩ := canonical
    have kept : sorted ms = ms := ascending_ext (ascending_sorted ms) ascending fun _ => mem_sorted
    match ms, two with
    | a :: b :: ms, _ => simp [makeUnion, members, kept]
  | _ => exact normal_of_not_union rfl

theorem Normal.members_ne_nil (normal : t.Normal) : t.members ≠ [] := by
  intro none
  have whole := normal.whole
  simp only [makeUnion, List.flatMap_cons, none, List.flatMap_nil, List.append_nil, sorted,
    List.foldl_nil] at whole
  simp [← whole, members] at none

theorem Normal.ext {a b : Ty} (left : a.Normal) (right : b.Normal)
    (same : ∀ m, m ∈ a.members ↔ m ∈ b.members) : a = b := by
  rw [← left.whole, ← right.whole]
  exact makeUnion_congr (by simpa using same)

theorem Normal.makeUnion_members (normal : t.Normal) : makeUnion t.members = t := by
  conv_rhs => rw [← normal.whole]
  apply makeUnion_congr
  intro m
  simp only [List.mem_flatMap, List.mem_singleton, exists_eq_left]
  constructor
  · rintro ⟨u, given, mem⟩
    rw [members_of_not_union (normal.single u given)] at mem
    rwa [List.mem_singleton.mp mem]
  · intro mem
    exact ⟨m, mem, by simp [members_of_not_union (normal.single m mem)]⟩

theorem flatMap_members_ne_nil (normal : ∀ t ∈ ts, t.Normal) (some : ts ≠ []) : ts.flatMap members ≠ [] := by
  obtain ⟨t, given⟩ := List.exists_mem_of_ne_nil ts some
  obtain ⟨m, mem⟩ := List.exists_mem_of_ne_nil t.members (normal t given).members_ne_nil
  exact List.ne_nil_of_mem (List.mem_flatMap.mpr ⟨t, given, mem⟩)

theorem members_makeUnion (single : ∀ m ∈ ts.flatMap members, m.isUnion = false)
    (some : ts.flatMap members ≠ []) :
    (makeUnion ts).members = sorted (ts.flatMap members) := by
  obtain ⟨m, mem⟩ := List.exists_mem_of_ne_nil _ some
  have listed := mem_sorted.mpr mem
  unfold makeUnion
  split
  · simp_all
  · rename_i t only
    have given : t ∈ ts.flatMap members := mem_sorted.mp (by simp [only])
    rw [only, members_of_not_union (single t given)]
  · rfl

theorem single_flatMap (normal : ∀ t ∈ ts, t.Normal) : ∀ m ∈ ts.flatMap members, m.isUnion = false := by
  intro m mem
  obtain ⟨t, given, inner⟩ := List.mem_flatMap.mp mem
  exact (normal t given).single m inner

theorem mem_members_makeUnion_iff (normal : ∀ t ∈ ts, t.Normal) (some : ts ≠ []) {m : Ty} :
    m ∈ (makeUnion ts).members ↔ ∃ t ∈ ts, m ∈ t.members := by
  rw [members_makeUnion (single_flatMap normal) (flatMap_members_ne_nil normal some), mem_sorted,
    List.mem_flatMap]

theorem normal_makeUnion (normal : ∀ t ∈ ts, t.Normal) : (makeUnion ts).Normal := by
  by_cases none : ts = []
  · subst none
    exact normal_of_not_union rfl
  · have same := fun m => @mem_members_makeUnion_iff ts normal none m
    refine ⟨fun m mem => ?_, makeUnion_congr (by simpa using same)⟩
    obtain ⟨t, given, inner⟩ := (same m).mp mem
    exact (normal t given).single m inner

theorem makeUnion_groups {groups : List (List Ty)} (normal : ∀ g ∈ groups, ∀ t ∈ g, t.Normal)
    (some : ∀ g ∈ groups, g ≠ []) :
    makeUnion (groups.map makeUnion) = makeUnion groups.flatten := by
  apply makeUnion_congr
  intro m
  simp only [List.mem_flatMap, List.mem_map, List.mem_flatten]
  constructor
  · rintro ⟨_, ⟨g, among, rfl⟩, mem⟩
    obtain ⟨t, given, inner⟩ := (mem_members_makeUnion_iff (normal g among) (some g among)).mp mem
    exact ⟨t, ⟨g, among, given⟩, inner⟩
  · rintro ⟨t, ⟨g, among, given⟩, inner⟩
    exact ⟨_, ⟨g, among, rfl⟩,
      (mem_members_makeUnion_iff (normal g among) (some g among)).mpr ⟨t, given, inner⟩⟩

/-! ## Two types -/

structure JoinLaws (ok : Ty → Prop) (op : Ty → Ty → Ty) : Prop where
  closed : ∀ a b, ok a → ok b → ok (op a b)
  comm : ∀ a b, ok a → ok b → op a b = op b a
  assoc : ∀ a b c, ok a → ok b → ok c → op (op a b) c = op a (op b c)
  idem : ∀ a, ok a → op a a = a

section Pairs

variable {a b c : Ty} (left : a.Normal) (right : b.Normal)
include left right

theorem Normal.either_eq : a.either b = makeUnion [a, b] := by
  unfold either
  split
  · rename_i same
    subst same
    rw [← left.whole]
    exact makeUnion_congr (by simp [left.whole])
  · rfl

theorem Normal.either : (a.either b).Normal := by
  rw [left.either_eq right]
  exact normal_makeUnion (by simp [left, right])

theorem Normal.mem_members_either_iff {m : Ty} :
    m ∈ (a.either b).members ↔ m ∈ a.members ∨ m ∈ b.members := by
  rw [left.either_eq right, mem_members_makeUnion_iff (by simp [left, right]) (by simp)]
  simp

theorem Normal.either_comm : a.either b = b.either a := by
  apply (left.either right).ext (right.either left)
  simp [left.mem_members_either_iff right, right.mem_members_either_iff left, or_comm]

theorem Normal.either_assoc (last : c.Normal) : (a.either b).either c = a.either (b.either c) := by
  apply ((left.either right).either last).ext (left.either (right.either last))
  simp [(left.either right).mem_members_either_iff last, left.mem_members_either_iff right,
    left.mem_members_either_iff (right.either last), right.mem_members_either_iff last, or_assoc]

theorem Normal.contains_iff_either_eq : a.contains b = true ↔ a.either b = a := by
  have covered : a.contains b = true ↔ ∀ m ∈ b.members, m ∈ a.members := by simp [contains]
  rw [covered]
  constructor
  · intro covered
    apply (left.either right).ext left
    intro m
    rw [left.mem_members_either_iff right]
    exact or_iff_left_of_imp (covered m)
  · intro same m mem
    rw [← same, left.mem_members_either_iff right]
    exact .inr mem

theorem Normal.contains_antisymm (below : a.contains b = true) (above : b.contains a = true) : a = b := by
  rw [← (left.contains_iff_either_eq right).mp below, left.either_comm right,
    (right.contains_iff_either_eq left).mp above]

theorem Normal.either_ne_unknown (known : a ≠ .unknown) : a.either b ≠ .unknown := by
  intro blank
  have only : ∀ m ∈ a.members, m = .unknown := by
    intro m mem
    have mem : m ∈ (a.either b).members := (left.mem_members_either_iff right).mpr (.inl mem)
    rw [blank] at mem
    exact List.mem_singleton.mp mem
  obtain ⟨m, mem⟩ := List.exists_mem_of_ne_nil _ left.members_ne_nil
  apply known
  apply left.ext (normal_of_not_union rfl)
  intro u
  have here : Ty.unknown ∈ a.members := only m mem ▸ mem
  constructor
  · intro inside
    exact List.mem_singleton.mpr (only u inside)
  · intro inside
    rwa [List.mem_singleton.mp inside]

end Pairs

theorem either_self (a : Ty) : a.either a = a := by simp [either]

theorem contains_refl (a : Ty) : a.contains a = true := by simp [contains]

theorem contains_trans {a b c : Ty} (first : a.contains b = true) (second : b.contains c = true) :
    a.contains c = true := by
  simp only [contains, List.all_eq_true, List.contains_iff_mem] at *
  exact fun m mem => first m (second m mem)

theorem joinLaws_either : JoinLaws Canonical either where
  closed _ _ := canonical_closed.either
  comm _ _ left right := left.normal.either_comm right.normal
  assoc _ _ _ left right last := left.normal.either_assoc right.normal last.normal
  idem a _ := either_self a

theorem unknown_join (a : Ty) : Ty.unknown.join a = a := by simp [join]

theorem join_unknown (a : Ty) : a.join .unknown = a := by
  by_cases blank : a = .unknown <;> simp [join, blank]

theorem join_known {a b : Ty} (left : a ≠ .unknown) (right : b ≠ .unknown) :
    a.join b = a.either b := by simp [join, left, right]

theorem joinLaws_join : JoinLaws Canonical join where
  closed _ _ := canonical_closed.join
  comm a b left right := by
    by_cases first : a = .unknown
    · rw [first, unknown_join, join_unknown]
    by_cases second : b = .unknown
    · rw [second, unknown_join, join_unknown]
    · rw [join_known first second, join_known second first, left.normal.either_comm right.normal]
  assoc a b c left right last := by
    by_cases first : a = .unknown
    · rw [first, unknown_join, unknown_join]
    by_cases second : b = .unknown
    · rw [second, join_unknown, unknown_join]
    by_cases third : c = .unknown
    · rw [third, join_unknown, join_unknown]
    · have before := left.normal.either_ne_unknown right.normal first
      have after := right.normal.either_ne_unknown last.normal second
      rw [join_known first second, join_known second third, join_known before third, join_known first after,
        left.normal.either_assoc right.normal last.normal]
  idem a _ := by
    by_cases blank : a = .unknown
    · rw [blank, unknown_join]
    · rw [join_known blank blank, either_self]

/-! ## One type after the other -/

theorem JoinLaws.foldl_congr {ok : Ty → Prop} {op : Ty → Ty → Ty} (laws : JoinLaws ok op)
    {start : Ty} (begins : ok start)
    {ts us : List Ty} (all : ∀ t ∈ ts, ok t) (same : ∀ t, t ∈ ts ↔ t ∈ us) :
    ts.foldl op start = us.foldl op start := by
  -- On the types of the kind the laws hold without conditions, so that folds over multisets apply.
  let onKind (a b : {t // ok t}) : {t // ok t} := ⟨op a.1 b.1, laws.closed _ _ a.2 b.2⟩
  have comm : Std.Commutative onKind := ⟨fun a b => Subtype.ext (laws.comm _ _ a.2 b.2)⟩
  have assoc : Std.Associative onKind := ⟨fun a b c => Subtype.ext (laws.assoc _ _ _ a.2 b.2 c.2)⟩
  have idem : Std.IdempotentOp onKind := ⟨fun a => Subtype.ext (laws.idem _ a.2)⟩
  have plain (kinds : List {t // ok t}) (first : {t // ok t}) :
      (kinds.map Subtype.val).foldl op first.1 = (kinds.foldl onKind first).1 := by
    induction kinds generalizing first with
    | nil => rfl
    | cons t kinds ih => exact ih (onKind first t)
  lift ts to List {t // ok t} using all
  have all' : ∀ t ∈ us, ok t := by
    intro t mem
    obtain ⟨u, -, rfl⟩ := List.mem_map.mp ((same t).mpr mem)
    exact u.2
  lift us to List {t // ok t} using all'
  have set : (ts : Multiset {t // ok t}).dedup = (us : Multiset {t // ok t}).dedup := by
    apply Multiset.dedup_ext.mpr
    intro t
    simpa [t.2] using same t.1
  rw [plain ts ⟨start, begins⟩, plain us ⟨start, begins⟩, ← Multiset.coe_fold_l,
    ← Multiset.coe_fold_l, ← Multiset.fold_dedup_idem,
    set, Multiset.fold_dedup_idem]

theorem foldl_refineType (b : Binding) (ts : List Ty) :
    ts.foldl Binding.refineType b = { b with ty := ts.foldl join b.ty } := by
  induction ts generalizing b with
  | nil => rfl
  | cons t ts ih => rw [List.foldl_cons, ih, List.foldl_cons, Binding.refineType]

theorem foldl_addReturn {acc : Ty} {rest : List Ty} (inside : s.returns = acc :: rest) (ts : List Ty) :
    ts.foldl Session.addReturn s = { s with returns := ts.foldl join acc :: rest } := by
  induction ts generalizing s acc with
  | nil => simp [← inside]
  | cons t ts ih =>
    have next : s.addReturn t = { s with returns := acc.join t :: rest } := by
      simp [Session.addReturn, inside]
    rw [List.foldl_cons, next, ih rfl, List.foldl_cons]

theorem foldl_addReturn_outside (outside : s.returns = []) (ts : List Ty) :
    ts.foldl Session.addReturn s = s := by
  induction ts with
  | nil => rfl
  | cons t ts ih => rwa [List.foldl_cons, show s.addReturn t = s by simp [Session.addReturn, outside]]

theorem foldl_addReturn_congr (canonical : ∀ ty ∈ s.returns, ty.Canonical) {ts us : List Ty}
    (all : ∀ t ∈ ts, t.Canonical)
    (same : ∀ t, t ∈ ts ↔ t ∈ us) : ts.foldl Session.addReturn s = us.foldl Session.addReturn s := by
  cases inside : s.returns with
  | nil => rw [foldl_addReturn_outside inside, foldl_addReturn_outside inside]
  | cons acc rest =>
    have begins : acc.Canonical := canonical acc (by simp [inside])
    rw [foldl_addReturn inside, foldl_addReturn inside, joinLaws_join.foldl_congr begins all same]

theorem refineType_cases (b : Binding) (t : Ty) :
    b.refineType t = if b.ty = .unknown then { b with ty := t } else if t = .unknown then b else
      b.mergeType t := by
  unfold Binding.refineType Binding.mergeType join
  split
  · rfl
  · split <;> rfl

/-- **Types form a join semilattice.** A union depends on the set of the members that it is made of,
which it has all and no others, and groups may be put together first. Two canonical types have a
union with the laws of a join, whose order is `contains`, and so does `join`, for which unknown is
neutral. Merging keeps every member, and refining is `join`. What bindings are refined to and what
calls return does not depend on the order in which types come, nor on how often each comes. -/
theorem types_form_semilattice :
    (∀ ts us : List Ty, (∀ m, m ∈ ts.flatMap members ↔ m ∈ us.flatMap members) →
      makeUnion ts = makeUnion us) ∧
    (∀ ts : List Ty, (∀ t ∈ ts, t.Canonical) → ts ≠ [] → ∀ m, m ∈ (makeUnion ts).members ↔
      m ∈ ts.flatMap members) ∧
    (∀ groups : List (List Ty), (∀ g ∈ groups, g ≠ [] ∧ ∀ t ∈ g, t.Canonical) →
      makeUnion (groups.map makeUnion) = makeUnion groups.flatten) ∧
    JoinLaws Canonical either ∧
    (∀ a b : Ty, a.Canonical → b.Canonical → (a.contains b = true ↔ a.either b = a)) ∧
    ((∀ a : Ty, a.contains a = true) ∧
      (∀ a b c : Ty, a.contains b = true → b.contains c = true → a.contains c = true) ∧
      ∀ a b : Ty, a.Canonical → b.Canonical → a.contains b = true → b.contains a = true → a = b) ∧
    (∀ (b : Binding) (t : Ty), b.ty.Canonical → t.Canonical → ∀ m, m ∈ (b.mergeType t).ty.members ↔
      m ∈ b.ty.members ∨ m ∈ t.members) ∧
    JoinLaws Canonical join ∧
    (∀ t : Ty, Ty.unknown.join t = t ∧ t.join .unknown = t) ∧
    (∀ (b : Binding) (t : Ty), (b.refineType t).ty = b.ty.join t ∧
      b.refineType t = if b.ty = .unknown then { b with ty := t } else if t = .unknown then b else
        b.mergeType t) ∧
    (∀ (b : Binding) (ts us : List Ty), b.ty.Canonical → (∀ t ∈ ts, t.Canonical) → (∀ t, t ∈ ts ↔ t ∈ us) →
      ts.foldl Binding.refineType b = us.foldl Binding.refineType b) ∧
    ∀ (s : Session) (ts us : List Ty), (∀ ty ∈ s.returns, ty.Canonical) → (∀ t ∈ ts, t.Canonical) →
      (∀ t, t ∈ ts ↔ t ∈ us) →
      ts.foldl Session.addReturn s = us.foldl Session.addReturn s := by
  refine ⟨fun ts us => makeUnion_congr, fun ts canonical some m => ?_, fun groups given => ?_,
    joinLaws_either,
    fun a b left right => left.normal.contains_iff_either_eq right.normal,
    ⟨contains_refl, fun a b c => contains_trans, fun a b left right =>
      left.normal.contains_antisymm right.normal⟩,
    fun b t left right m => left.normal.mem_members_either_iff right.normal, joinLaws_join,
    fun t => ⟨unknown_join t, join_unknown t⟩, fun b t => ⟨rfl, refineType_cases b t⟩,
    fun b ts us canonical all same => ?_,
    fun s ts us canonical all same => foldl_addReturn_congr canonical all same⟩
  · rw [mem_members_makeUnion_iff (fun t mem => (canonical t mem).normal) some, List.mem_flatMap]
  · exact makeUnion_groups (fun g mem t inner => ((given g mem).2 t inner).normal) fun g mem =>
    (given g mem).1
  · rw [foldl_refineType, foldl_refineType, joinLaws_join.foldl_congr canonical all same]

def mixedTypes : List Ty :=
  [.list (.union [.str (some "a"), .str (some "b")]) ["b", "a"], .union [.unknown, .num], .unknown]

def numeric : Binding where
  name := "x"
  qname := "x"
  kind := .variable
  node := ⟨0, ⟨"a.rb"⟩, 0⟩
  body := default
  ty := .num

theorem types_form_semilattice_mixed :
    (∀ t ∈ mixedTypes, t.Canonical) ∧ numeric.ty.Canonical ∧
    makeUnion (mixedTypes.map fun t => makeUnion [t, .nil]) = makeUnion (mixedTypes ++ [.nil]) ∧
    (mixedTypes ++ mixedTypes).foldl Binding.refineType numeric =
      mixedTypes.reverse.foldl Binding.refineType numeric ∧
    (mixedTypes.foldl Binding.refineType numeric).ty =
      .union [.unknown, .num, .list (.union [.str (some "a"), .str (some "b")]) ["b", "a"]] := by
  have canonical : ∀ t ∈ mixedTypes, t.Canonical := by decide +kernel
  have begins : numeric.ty.Canonical := by decide
  obtain ⟨sets, -, groups, -, -, -, -, -, -, -, refined, -⟩ := types_form_semilattice
  refine ⟨canonical, begins, ?_, refined numeric _ _ begins (by simpa using canonical) (by simp), by
    decide +kernel⟩
  have grouped := groups (mixedTypes.map fun t => [t, .nil]) (by decide +kernel)
  rw [List.map_map] at grouped
  exact grouped.trans (sets _ _ (by simp [mixedTypes, or_comm, or_assoc]))

end RubyInfer.Ty
