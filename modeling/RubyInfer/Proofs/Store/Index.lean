import RubyInfer.Proofs.Store.Scopes
import RubyInfer.Proofs.Store.Registry

/-!
# The reference index

The index keeps, file by file, which nodes refer to which bindings. `Indexed` says that it is in
order: one list for each file, each node once and in the list of its own file, each binding once for
a node. What `putRef` and `removeFile` do to the nodes of the index (`keys`) and to the bindings
that it mentions (`Mentions`) is said in terms of what they were before.
-/

namespace RubyInfer.Registry

variable {r : Registry} {index : List (NodeRef × List BindingId)} {ids : List BindingId}
    {node : NodeRef} {file : Path}

def keys (r : Registry) : List NodeRef := r.references.entries.flatMap (fun e => e.2.map Prod.fst)

def Mentions (r : Registry) (id : BindingId) : Prop := ∃ entry ∈ r.references.entries, ∃ e ∈ entry.2, id ∈ e.2

structure Filed (file : Path) (index : List (NodeRef × List BindingId)) : Prop where
  own : ∀ e ∈ index, file.same e.1.file = true
  nodes : (index.map Prod.fst).Nodup
  lists : ∀ e ∈ index, e.2.Nodup

structure Indexed (r : Registry) : Prop where
  paths : r.references.Distinct
  filed : ∀ entry ∈ r.references.entries, Filed entry.1 entry.2

theorem referencingNodes_eq (r : Registry) : r.referencingNodes = r.keys.length := by
  unfold referencingNodes keys PathMap.values
  rw [List.length_flatMap, List.map_map]
  congr 1
  apply List.map_congr_left
  intro e _
  simp

theorem mem_keys : node ∈ r.keys ↔ ∃ entry ∈ r.references.entries, node ∈ entry.2.map Prod.fst :=
  List.mem_flatMap

theorem Indexed.nodup_keys (indexed : r.Indexed) : r.keys.Nodup := by
  refine List.pairwise_flatMap.mpr ⟨fun entry mem => (indexed.filed entry mem).nodes, ?_⟩
  refine indexed.paths.imp_of_mem fun {a b} memA memB apart x inA y inB same => ?_
  obtain ⟨e, here, rfl⟩ := List.mem_map.mp inA
  obtain ⟨e', there, rfl⟩ := List.mem_map.mp inB
  have left := (indexed.filed a memA).own e here
  have right := (indexed.filed b memB).own e' there
  rw [← same, Path.same_comm] at right
  rw [Path.same_trans left right] at apart
  cases apart

/-! ## Adding references -/

theorem mem_refer {e : NodeRef × List BindingId} (mem : e ∈ refer node ids index) :
    e ∈ index ∨ e = (node, ids.foldl addNew []) ∨ ∃ old, (node, old) ∈ index ∧
      e = (node, ids.foldl addNew old) := by
  unfold refer at mem
  split at mem
  · obtain ⟨old, there, rfl⟩ := List.mem_map.mp mem
    split
    · rename_i same
      exact .inr (.inr ⟨old.2, same ▸ there, by rw [same]⟩)
    · exact .inl there
  · obtain old | new := List.mem_append.mp mem
    · exact .inl old
    · exact .inr (.inl (List.mem_singleton.mp new))

theorem map_fst_refer (node : NodeRef) (ids : List BindingId) (index : List (NodeRef × List BindingId)) :
    (refer node ids index).map Prod.fst =
      if node ∈ index.map Prod.fst then index.map Prod.fst else index.map Prod.fst ++ [node] := by
  have present : index.any (fun e => e.1 = node) = true ↔ node ∈ index.map Prod.fst := by
    simp
  unfold refer
  by_cases here : node ∈ index.map Prod.fst
  · rw [if_pos (present.mpr here), if_pos here, List.map_map]
    apply List.map_congr_left
    intro e _
    by_cases same : e.1 = node <;> simp [same]
  · rw [if_neg (fun h => here (present.mp h)), if_neg here, List.map_append]
    rfl

theorem Filed.refer (filed : Filed file index) (here : file.same node.file = true) (ids : List BindingId) :
    Filed file (Registry.refer node ids index) := by
  refine ⟨fun e mem => ?_, ?_, fun e mem => ?_⟩
  · obtain old | rfl | ⟨old, -, rfl⟩ := mem_refer mem
    · exact filed.own e old
    · exact here
    · exact here
  · rw [map_fst_refer]
    split
    · exact filed.nodes
    · rename_i new
      exact nodup_append_new filed.nodes new
  · obtain old | rfl | ⟨old, there, rfl⟩ := mem_refer mem
    · exact filed.lists e old
    · exact nodup_foldl_addNew List.nodup_nil ids
    · exact nodup_foldl_addNew (filed.lists _ there) ids

theorem Indexed.putRef (indexed : r.Indexed) (node : NodeRef) (ids : List BindingId) :
    (r.putRef node ids).Indexed := by
  constructor
  · rw [references_putRef]
    exact indexed.paths.update ..
  · rw [references_putRef]
    intro entry mem
    obtain old | ⟨index, there, here, changed⟩ | rfl := PathMap.mem_entries_update mem
    · exact indexed.filed entry old
    · rw [changed]
      exact (indexed.filed _ there).refer (Path.same_comm.trans here) ids
    · have blank : Filed node.file [] := ⟨by simp, by simp, by simp⟩
      exact blank.refer (Path.same_refl _) ids

theorem mem_keys_putRef {node n : NodeRef} : n ∈ (r.putRef node ids).keys ↔ n ∈ r.keys ∨ n = node := by
  have referred {index : List (NodeRef × List BindingId)} :
      n ∈ (refer node ids index).map Prod.fst ↔ n ∈ index.map Prod.fst ∨ n = node := by
    rw [map_fst_refer]
    split
    · rename_i there
      exact ⟨.inl, fun h => h.elim id fun same => same ▸ there⟩
    · simp
  rw [mem_keys, mem_keys, references_putRef]
  constructor
  · rintro ⟨entry, mem, here⟩
    obtain old | ⟨index, there, -, changed⟩ | rfl := PathMap.mem_entries_update mem
    · exact .inl ⟨entry, old, here⟩
    · rw [changed] at here
      exact (referred.mp here).imp_left fun before => ⟨_, there, before⟩
    · exact .inr (((@referred []).mp here).resolve_left List.not_mem_nil)
  · rintro (⟨entry, mem, here⟩ | same)
    · obtain ⟨index, there, rfl | rfl⟩ := PathMap.exists_mem_entries_update mem node.file [] (refer node ids)
      · exact ⟨_, there, here⟩
      · exact ⟨_, there, referred.mpr (.inl here)⟩
    · obtain ⟨file, index, there⟩ :=
      PathMap.exists_mem_entries_update_self r.references node.file [] (refer node ids)
      exact ⟨_, there, referred.mpr (.inr same)⟩

theorem mentions_putRef {x : BindingId} (mentioned : (r.putRef node ids).Mentions x) :
    r.Mentions x ∨ x ∈ ids := by
  obtain ⟨entry, mem, e, inside, here⟩ := mentioned
  rw [references_putRef] at mem
  have added {index : List (NodeRef × List BindingId)} (inside : e ∈ refer node ids index) :
      (∃ e ∈ index, x ∈ e.2) ∨ x ∈ ids := by
    obtain old | rfl | ⟨old, there, rfl⟩ := mem_refer inside
    · exact .inl ⟨e, old, here⟩
    · exact .inr (by simpa [mem_foldl_addNew] using here)
    · exact (mem_foldl_addNew.mp here).imp_left fun before => ⟨_, there, before⟩
  obtain old | ⟨index, there, -, changed⟩ | rfl := PathMap.mem_entries_update mem
  · exact .inl ⟨entry, old, e, inside, here⟩
  · rw [changed] at inside
    exact (added inside).imp_left fun ⟨e, before, mem⟩ => ⟨_, there, e, before, mem⟩
  · exact (added inside).imp_left fun ⟨e, before, _⟩ => absurd before List.not_mem_nil

/-! ## Removing a file -/

theorem mem_references_removeFile {entry : Path × List (NodeRef × List BindingId)} :
    entry ∈ (r.removeFile file).2.references.entries ↔ ∃ old ∈ r.references.entries, file.same old.1 = false ∧
      entry = (old.1, old.2.map fun e => (e.1, e.2.filter fun id => !(r.idsIn file).contains id)) := by
  show entry ∈ ((r.references.erase file).mapValues _).entries ↔ _
  unfold PathMap.mapValues PathMap.erase
  rw [List.mem_map]
  constructor
  · rintro ⟨old, mem, rfl⟩
    obtain ⟨there, kept⟩ := List.mem_filter.mp mem
    exact ⟨old, there, by simpa using kept, rfl⟩
  · rintro ⟨old, there, kept, rfl⟩
    exact ⟨old, List.mem_filter.mpr ⟨there, by simpa using kept⟩, rfl⟩

theorem Indexed.removeFile (indexed : r.Indexed) (file : Path) : (r.removeFile file).2.Indexed := by
  refine ⟨(indexed.paths.erase file).mapValues _, fun entry mem => ?_⟩
  obtain ⟨old, there, -, rfl⟩ := mem_references_removeFile.mp mem
  have before := indexed.filed old there
  refine ⟨fun e inside => ?_, ?_, fun e inside => ?_⟩
  · obtain ⟨e', here, rfl⟩ := List.mem_map.mp inside
    exact before.own e' here
  · rw [List.map_map]
    exact before.nodes
  · obtain ⟨e', here, rfl⟩ := List.mem_map.mp inside
    exact (before.lists e' here).filter _

theorem Indexed.mem_keys_removeFile (indexed : r.Indexed) {n : NodeRef} :
    n ∈ (r.removeFile file).2.keys ↔ n ∈ r.keys ∧ n.file.same file = false := by
  have spelled {old : Path × List (NodeRef × List BindingId)} (there : old ∈ r.references.entries)
      (here : n ∈ old.2.map Prod.fst) : n.file.same file = file.same old.1 := by
    obtain ⟨e, inside, rfl⟩ := List.mem_map.mp here
    rw [Path.same_comm, Path.same_congr ((indexed.filed old there).own e inside)]
  rw [mem_keys, mem_keys]
  constructor
  · rintro ⟨entry, mem, here⟩
    obtain ⟨old, there, kept, rfl⟩ := mem_references_removeFile.mp mem
    rw [List.map_map] at here
    exact ⟨⟨old, there, here⟩, (spelled there here).trans kept⟩
  · rintro ⟨⟨old, there, here⟩, kept⟩
    refine ⟨_, mem_references_removeFile.mpr ⟨old, there, (spelled there here).symm.trans kept, rfl⟩, ?_⟩
    rw [List.map_map]
    exact here

theorem mentions_removeFile {x : BindingId} (mentioned : (r.removeFile file).2.Mentions x) :
    r.Mentions x ∧ x ∉ r.idsIn file := by
  obtain ⟨entry, mem, e, inside, here⟩ := mentioned
  obtain ⟨old, there, -, rfl⟩ := mem_references_removeFile.mp mem
  obtain ⟨e', before, rfl⟩ := List.mem_map.mp inside
  obtain ⟨inList, kept⟩ := List.mem_filter.mp here
  exact ⟨⟨old, there, e', before, inList⟩, by simpa using kept⟩

end RubyInfer.Registry
