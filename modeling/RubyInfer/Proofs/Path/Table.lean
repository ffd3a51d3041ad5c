import RubyInfer.Path.Table

/-!
# Sets and tables of paths

What a set or table of paths answers after it has changed. A question about one place is a question
about every spelling of it.
-/

namespace RubyInfer

theorem Path.same_congr {p q r : Path} (same : p.same q = true) : r.same p = r.same q := by
  simp [Path.same, Path.same_iff.mp same]

namespace PathSet

variable {s : PathSet} {p : Path}

theorem prefix_insert (s : PathSet) (p : Path) : s.paths <+: (s.insert p).paths := by
  unfold insert
  split
  · exact List.prefix_rfl
  · exact List.prefix_append ..

theorem erase_insert (fresh : s.contains p = false) : (s.insert p).erase p = s := by
  have others : ∀ q ∈ s.paths, p.same q = false := by
    simpa [contains] using fresh
  have kept : s.paths.filter (fun q => !p.same q) = s.paths :=
    List.filter_eq_self.mpr fun q mem => by simp [others q mem]
  cases s
  simp_all [insert, erase]

theorem contains_erase (s : PathSet) (p q : Path) : (s.erase p).contains q = (s.contains q && !p.same q) := by
  unfold erase contains
  rw [List.any_filter, Bool.eq_iff_iff]
  simp only [Bool.and_eq_true, List.any_eq_true]
  constructor
  · rintro ⟨r, mem, other, same⟩
    exact ⟨⟨r, mem, same⟩, Path.same_congr same ▸ other⟩
  · rintro ⟨⟨r, mem, same⟩, other⟩
    exact ⟨r, mem, Path.same_congr same ▸ other, same⟩

theorem contains_of_erase {p q : Path} (there : (s.erase p).contains q = true) :
    s.contains q = true ∧ p.same q = false := by
  simpa [contains_erase] using there

theorem contains_of_insert {p q : Path} (there : (s.insert p).contains q = true) :
    s.contains q = true ∨ q.same p = true := by
  unfold insert at there
  split at there
  · exact .inl there
  · simpa [contains] using there

theorem contains_insert (s : PathSet) (p q : Path) :
    (s.insert p).contains q = (s.contains q || q.same p) := by
  unfold insert
  split
  · rename_i there
    cases same : q.same p
    · simp
    · simpa [contains, Path.same_iff.mp same, Path.same] using there
  · simp [contains]

theorem contains_congr {p q : Path} (same : p.same q = true) (s : PathSet) : s.contains p = s.contains q := by
  have questions : p.same = q.same := funext fun r => by simp [Path.same, Path.same_iff.mp same]
  rw [contains, contains, questions]

def count (s : PathSet) (p : Path) : Nat := s.paths.countP p.same

theorem contains_iff_count : s.contains p = true ↔ 0 < s.count p := by
  rw [contains, count, List.countP_pos_iff, List.any_eq_true]

theorem count_of_absent (absent : s.contains p = false) : s.count p = 0 := by
  have none := mt contains_iff_count.mpr (Bool.eq_false_iff.mp absent)
  omega

theorem count_insert_new (new : s.contains p = false) (q : Path) :
    (s.insert p).count q = s.count q + if q.same p then 1 else 0 := by
  simp [insert, new, count, List.countP_append]

theorem count_insert_other {p q : Path} (other : q.same p = false) : (s.insert p).count q = s.count q := by
  unfold insert
  split
  · rfl
  · simp [count, List.countP_append, other]

theorem count_insert_le (single : ∀ q, s.count q ≤ 1) (p q : Path) : (s.insert p).count q ≤ 1 := by
  cases there : s.contains p with
  | true =>
    rw [insert, if_pos there]
    exact single q
  | false =>
    rw [count_insert_new there]
    split
    · rename_i same
      exact Nat.le_of_eq (congrArg (· + 1) (count_of_absent ((contains_congr same s).trans there)))
    · exact single q

theorem insert_of_contains (there : s.contains p = true) : s.insert p = s := if_pos there

end PathSet

namespace PathMap

variable {α : Type} {m : PathMap α} {p q : Path} {e : Path × α}

theorem get?_cons (e : Path × α) (entries : List (Path × α)) (q : Path) :
    get? ⟨e :: entries⟩ q = if q.same e.1 then some e.2 else get? ⟨entries⟩ q := by
  by_cases here : q.same e.1 = true <;> simp [get?, here]

theorem get?_mapValues (m : PathMap α) (f : α → α) (q : Path) :
    (m.mapValues f).get? q = (m.get? q).map f := by
  simp [get?, mapValues, Option.map_map, Function.comp_def]

theorem contains_eq_isSome (m : PathMap α) (q : Path) : m.contains q = (m.get? q).isSome := by
  rw [Bool.eq_iff_iff]
  simp [contains, get?]

theorem contains_congr (same : p.same q = true) (m : PathMap α) : m.contains p = m.contains q := by
  simp only [contains, Path.same, Path.same_iff.mp same]

theorem get?_congr (same : p.same q = true) (m : PathMap α) : m.get? p = m.get? q := by
  simp only [get?, Path.same, Path.same_iff.mp same]

theorem get?_update_present (entries : List (Path × α)) (p : Path) (f : α → α) (q : Path) :
    get? ⟨entries.map fun e => if p.same e.1 then (e.1, f e.2) else e⟩ q =
      if p.same q then (get? ⟨entries⟩ q).map f else get? ⟨entries⟩ q := by
  induction entries with
  | nil => simp [get?]
  | cons e entries ih =>
    by_cases here : q.same e.1 = true
    · by_cases same : p.same q = true <;> simp_all [get?_cons, ← Path.same_congr here]
    · by_cases changed : p.same e.1 = true <;> simp_all [get?_cons]

theorem get?_update (m : PathMap α) (p : Path) (empty : α) (f : α → α) (q : Path) :
    (m.update p empty f).get? q = if p.same q then some (f ((m.get? q).getD empty)) else m.get? q := by
  unfold update
  split
  · rename_i present
    rw [get?_update_present]
    split
    · rename_i same
      rw [contains_congr same, contains_eq_isSome] at present
      obtain ⟨a, found⟩ := Option.isSome_iff_exists.mp present
      simp [found]
    · rfl
  · rename_i absent
    have append : get? ⟨m.entries ++ [(p, f empty)]⟩ q = (m.get? q).or (get? ⟨[(p, f empty)]⟩ q) := by
      simp [get?, List.find?_append, Option.map_or]
    rw [append, get?_cons, Path.same_comm (p := q)]
    split
    · rename_i same
      rw [contains_congr same, contains_eq_isSome] at absent
      simp_all
    · simp [get?]

theorem get?_insert (m : PathMap α) (p : Path) (a : α) (q : Path) :
    (m.insert p a).get? q = if p.same q then some a else m.get? q :=
  m.get?_update p a (fun _ => a) q

theorem mem_entries_insert {p : Path} (new : m.get? p = none) (a : α) : (p, a) ∈ (m.insert p a).entries := by
  have absent : m.contains p = false := by rw [contains_eq_isSome, new]; rfl
  simp [insert, update, absent]

theorem exists_mem_of_get? {p : Path} {a : α} (known : m.get? p = some a) :
    ∃ e ∈ m.entries, p.same e.1 = true := by
  obtain ⟨e, found, -⟩ := Option.map_eq_some_iff.mp known
  have same := List.find?_some found
  exact ⟨e, List.mem_of_find?_eq_some found, same⟩

theorem get?_erase (m : PathMap α) (p q : Path) :
    (m.erase p).get? q = if p.same q then none else m.get? q := by
  obtain ⟨entries⟩ := m
  simp only [erase]
  induction entries with
  | nil => simp [get?]
  | cons e entries ih =>
    by_cases here : q.same e.1 = true
    · by_cases same : p.same q = true <;> simp_all [get?_cons, ← Path.same_congr here]
    · by_cases dropped : p.same e.1 = true <;> simp_all [get?_cons]

/-! ## Two changes -/

theorem erase_update_same (same : q.same p = true) (m : PathMap α) (empty : α) (f : α → α) :
    (m.update p empty f).erase q = m.erase q := by
  unfold update erase
  split
  · simp only [PathMap.mk.injEq]
    induction m.entries with
    | nil => rfl
    | cons e entries ih =>
      rw [List.map_cons, List.filter_cons, List.filter_cons, ih]
      by_cases here : p.same e.1 = true
      · simp [here, Path.same_trans same here]
      · simp [here]
  · simp [same]

theorem erase_update_other (other : q.same p = false) (m : PathMap α) (empty : α) (f : α → α) :
    (m.update p empty f).erase q = (m.erase q).update p empty f := by
  have there : (m.erase q).contains p = m.contains p := by
    rw [contains_eq_isSome, contains_eq_isSome, get?_erase, other]
    rfl
  unfold update
  rw [there]
  split
  · simp only [erase, PathMap.mk.injEq]
    induction m.entries with
    | nil => rfl
    | cons e entries ih =>
      rw [List.map_cons, List.filter_cons, List.filter_cons, ih]
      by_cases here : p.same e.1 = true
      · have kept : q.same e.1 = false := (Path.same_congr here).symm.trans other
        simp [here, kept]
      · by_cases kept : q.same e.1 = true <;> simp [here, kept]
  · simp [erase, other]

theorem mapValues_update {f f' g : α → α} (commute : ∀ a, g (f a) = f' (g a)) (m : PathMap α)
    (p : Path) (empty : α) :
    (m.update p empty f).mapValues g = (m.mapValues g).update p (g empty) f' := by
  have there : (m.mapValues g).contains p = m.contains p := by
    simp [contains, mapValues, List.any_map, Function.comp_def]
  unfold update
  rw [there]
  split
  · simp only [mapValues, List.map_map, PathMap.mk.injEq]
    apply List.map_congr_left
    intro e _
    by_cases here : p.same e.1 = true <;> simp [here, commute]
  · simp [mapValues, commute]

/-! ## Entries -/

def Distinct (m : PathMap α) : Prop := m.entries.Pairwise (fun a b => a.1.same b.1 = false)

theorem mem_entries_update {p : Path} {empty : α} {f : α → α} (mem : e ∈ (m.update p empty f).entries) :
    e ∈ m.entries ∨ (∃ a, (e.1, a) ∈ m.entries ∧ p.same e.1 = true ∧ e.2 = f a) ∨ e = (p, f empty) := by
  unfold update at mem
  split at mem
  · obtain ⟨old, there, rfl⟩ := List.mem_map.mp mem
    split
    · rename_i here
      exact .inr (.inl ⟨old.2, there, here, rfl⟩)
    · exact .inl there
  · obtain old | new := List.mem_append.mp mem
    · exact .inl old
    · exact .inr (.inr (List.mem_singleton.mp new))

theorem exists_mem_entries_update (mem : e ∈ m.entries) (p : Path) (empty : α) (f : α → α) :
    ∃ a, (e.1, a) ∈ (m.update p empty f).entries ∧ (a = e.2 ∨ a = f e.2) := by
  unfold update
  split
  · by_cases here : p.same e.1 = true
    · exact ⟨f e.2, List.mem_map.mpr ⟨e, mem, if_pos here⟩, .inr rfl⟩
    · exact ⟨e.2, List.mem_map.mpr ⟨e, mem, if_neg here⟩, .inl rfl⟩
  · exact ⟨e.2, List.mem_append_left _ mem, .inl rfl⟩

theorem exists_mem_entries_update_self (m : PathMap α) (p : Path) (empty : α) (f : α → α) :
    ∃ q a, (q, f a) ∈ (m.update p empty f).entries := by
  unfold update
  split
  · rename_i present
    obtain ⟨e, mem, here⟩ := List.any_eq_true.mp present
    exact ⟨e.1, e.2, List.mem_map.mpr ⟨e, mem, if_pos here⟩⟩
  · exact ⟨p, empty, List.mem_append_right _ List.mem_cons_self⟩

theorem Distinct.get?_of_mem (distinct : m.Distinct) (mem : e ∈ m.entries) {q : Path}
    (same : q.same e.1 = true) : m.get? q = some e.2 := by
  obtain ⟨entries⟩ := m
  induction entries with
  | nil => cases mem
  | cons first entries ih =>
    obtain ⟨apart, rest⟩ := List.pairwise_cons.mp distinct
    rw [get?_cons]
    obtain rfl | later := List.mem_cons.mp mem
    · rw [if_pos same]
    · have other : q.same first.1 = false := by
        rw [Path.same_comm, Path.same_congr same]
        exact apart e later
      rw [other, if_neg Bool.false_ne_true]
      exact ih rest later

theorem map_fst_update (m : PathMap α) (p : Path) (empty : α) (f : α → α) :
    (m.update p empty f).entries.map Prod.fst =
      if m.contains p then m.entries.map Prod.fst else m.entries.map Prod.fst ++ [p] := by
  unfold update
  split
  · rw [List.map_map]
    refine List.map_congr_left fun e _ => ?_
    show (if p.same e.1 then _ else e).1 = e.1
    split <;> rfl
  · exact List.map_append

theorem Distinct.update (distinct : m.Distinct) (p : Path) (empty : α) (f : α → α) :
    (m.update p empty f).Distinct := by
  unfold PathMap.update
  split
  · refine List.pairwise_map.mpr (distinct.imp fun {a b} apart => ?_)
    have left : (if p.same a.1 then (a.1, f a.2) else a).1 = a.1 := by split <;> rfl
    have right : (if p.same b.1 then (b.1, f b.2) else b).1 = b.1 := by split <;> rfl
    rw [left, right]
    exact apart
  · rename_i absent
    refine List.pairwise_append.mpr ⟨distinct, List.pairwise_singleton .., fun a mem b last => ?_⟩
    rw [List.mem_singleton.mp last, Path.same_comm]
    simp only [contains, Bool.not_eq_true, List.any_eq_false] at absent
    exact absent a mem

theorem Distinct.erase (distinct : m.Distinct) (p : Path) : (m.erase p).Distinct := distinct.filter _

theorem Distinct.mapValues (distinct : m.Distinct) (f : α → α) : (m.mapValues f).Distinct :=
  List.pairwise_map.mpr distinct

end PathMap

end RubyInfer
