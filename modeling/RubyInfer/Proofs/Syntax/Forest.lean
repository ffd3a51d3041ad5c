import RubyInfer.Proofs.Syntax.Kind
import RubyInfer.Proofs.Syntax.Tree

/-!
# Arenas that hold a forest

`Forest b roots` says that the arena `b` holds the trees `roots` and nothing else: every index is
the root of one of them or the child of one node, once. A node joins the trees of its children into
one (`Forest.push`), and a copy adds one tree to those that are there (`Forest.deepCopy`). So
whatever is built in this way has no node without an owner, and no node with two.
-/

namespace RubyInfer

structure Node.Sound (n : Node) (id : NodeId) : Prop where
  children_eq : n.children = n.kind.children
  paired : n.kind.Paired
  before : ∀ child ∈ n.children, child < id
  ordered : n.span.start ≤ n.span.stop

structure Forest (b : Builder) (roots : List (NodeId × Tree)) : Prop where
  unclashed : b.clash = none
  sound : ∀ (id : NodeId) (n : Node), b.nodes[id]? = some n → n.Sound id
  owned : (roots.map Prod.fst ++ b.nodes.toList.flatMap Node.children).Perm (List.range b.nodes.size)
  parent : ∀ (id : NodeId) (n : Node), b.nodes[id]? = some n →
    ∀ p, n.parent = some p ↔ ∃ owner : Node, b.nodes[p]? = some owner ∧ id ∈ owner.children
  unfolds : ∀ r ∈ roots, Tree.ofNode b.nodes r.1 = some r.2

/-! ## Unfolding -/

namespace Tree

theorem ofNode_eq_some {nodes : Array Node} {id : NodeId} {t : Tree} : ofNode nodes id = some t ↔
    ∃ n kind, nodes[id]? = some n ∧
      (n.kind.mapM fun child => if child < id then ofNode nodes child else none) = some kind ∧
      t = .node kind n.span := by
  rw [ofNode]
  simp only [Option.bind_eq_bind, Option.bind_eq_some_iff, Option.pure_def, Option.some.injEq, dite_eq_ite]
  constructor
  · rintro ⟨n, held, kind, found, rfl⟩
    exact ⟨n, kind, held, found, rfl⟩
  · rintro ⟨n, kind, held, found, rfl⟩
    exact ⟨n, held, kind, found, rfl⟩

theorem ofNode_congr {nodes nodes' : Array Node} {id : NodeId}
    (same : ∀ i ≤ id,
      nodes'[i]?.map (fun n => (n.kind, n.span)) = nodes[i]?.map (fun n => (n.kind, n.span))) :
    ofNode nodes' id = ofNode nodes id := by
  induction id using Nat.strongRecOn with
  | ind id ih =>
    have here := same id (Nat.le_refl id)
    have below : (fun child => if child < id then ofNode nodes' child else none) =
        fun child => if child < id then ofNode nodes child else none := by
      funext child
      split
      case _ before =>
        exact ih child before fun i low => same i (Nat.le_of_lt (Nat.lt_of_le_of_lt low before))
      · rfl
    rw [ofNode, ofNode]
    simp only [dite_eq_ite, below]
    cases old : nodes[id]? <;> cases new : nodes'[id]? <;> simp_all

end Tree

def Keeps (nodes nodes' : Array Node) : Prop := ∀ id t, Tree.ofNode nodes id = some t →
    Tree.ofNode nodes' id = some t

theorem Keeps.refl (nodes : Array Node) : Keeps nodes nodes := fun _ _ found => found

theorem Keeps.trans {a b c : Array Node} (first : Keeps a b) (second : Keeps b c) : Keeps a c :=
  fun id t found => second id t (first id t found)

theorem keeps_of_content {nodes nodes' : Array Node}
    (same : ∀ i < nodes.size, nodes'[i]?.map (fun n => (n.kind, n.span)) =
      nodes[i]?.map (fun n => (n.kind, n.span))) :
    Keeps nodes nodes' := by
  intro id t found
  obtain ⟨n, kind, held, -, -⟩ := Tree.ofNode_eq_some.1 found
  obtain ⟨low, -⟩ := Array.getElem?_eq_some_iff.1 held
  rw [Tree.ofNode_congr fun i le => same i (Nat.lt_of_le_of_lt le low), found]

/-! ## Adoption -/

namespace Builder

def adopted (p : NodeId) (children : List NodeId) (i : NodeId) (n : Node) : Node :=
  if i ∈ children then { n with parent := some p } else n

@[simp] theorem adopted_content (p : NodeId) (children : List NodeId) (i : NodeId) (n : Node) :
    (adopted p children i n).kind = n.kind ∧ (adopted p children i n).span = n.span ∧
      (adopted p children i n).children = n.children := by
  unfold adopted
  split <;> exact ⟨rfl, rfl, rfl⟩

theorem nodes_foldl_adopt (p : NodeId) (children : List NodeId) (b : Builder) :
    (children.foldl (adopt p) b).nodes.size = b.nodes.size ∧
      ∀ i : NodeId, (children.foldl (adopt p) b).nodes[i]? = b.nodes[i]?.map (adopted p children i) := by
  induction children generalizing b with
  | nil =>
    refine ⟨rfl, fun i => ?_⟩
    rw [List.foldl_nil]
    cases b.nodes[i]? <;> simp [adopted]
  | cons c rest ih =>
    obtain ⟨size, content⟩ := ih (adopt p b c)
    refine ⟨by simpa [adopt] using size, fun i => ?_⟩
    rw [List.foldl_cons, content i]
    simp only [adopt, Array.getElem?_modify]
    by_cases same : c = i
    · subst same
      cases b.nodes[c]? <;> simp [adopted]
    · have other : i ≠ c := fun h => same h.symm
      cases b.nodes[i]? <;> simp [adopted, same, other]

theorem clash_foldl_adopt (p : NodeId) {children : List NodeId} {b : Builder} (distinct : children.Nodup)
    (free : ∀ c ∈ children, b.nodes[c]?.bind Node.parent = none) :
    (children.foldl (adopt p) b).clash = b.clash := by
  induction children generalizing b with
  | nil => rfl
  | cons c rest ih =>
    obtain ⟨fresh, distinct⟩ := List.nodup_cons.1 distinct
    have here : (adopt p b c).clash = b.clash := by simp [adopt, free c (by simp)]
    -- The other children are not touched by the first one's adoption.
    have later : ∀ d ∈ rest, (adopt p b c).nodes[d]?.bind Node.parent = none := by
      intro d mem
      have other : c ≠ d := fun same => fresh (same ▸ mem)
      simp only [adopt, Array.getElem?_modify, if_neg other]
      exact free d (by simp [mem])
    rw [List.foldl_cons, ih distinct later, here]

structure Joined (nodes nodes' : Array Node) (kind : Kind NodeId) (span : Span) : Prop where
  size : nodes'.size = nodes.size + 1
  new : nodes'[nodes.size]? = some ⟨kind, span, none, kind.children⟩
  old : ∀ i : Nat, i < nodes.size → nodes'[i]? = nodes[i]?.map (adopted nodes.size kind.children i)

theorem push_joined (b : Builder) {kind : Kind NodeId} (span : Span) (paired : kind.Paired) :
    (b.push kind span).1 = b.nodes.size ∧ Joined b.nodes (b.push kind span).2.nodes kind span := by
  obtain ⟨size, content⟩ := nodes_foldl_adopt b.nodes.size kind.children b
  simp only [push, Kind.paired_eq paired, true_and]
  refine ⟨by rw [Array.size_push, size], ?_, fun i low => ?_⟩
  · rw [Array.getElem?_push, if_pos size.symm]
  · rw [Array.getElem?_push, if_neg (by omega), content i]

theorem push_unclashed {b : Builder} {kind : Kind NodeId} (span : Span) (paired : kind.Paired)
    (distinct : kind.children.Nodup)
    (free : ∀ c ∈ kind.children, b.nodes[c]?.bind Node.parent = none) :
    (b.push kind span).2.clash = b.clash := by
  simp only [push, Kind.paired_eq paired]
  exact clash_foldl_adopt b.nodes.size distinct free

namespace Joined

variable {nodes nodes' : Array Node} {kind : Kind NodeId} {span : Span}

theorem keeps (joined : Joined nodes nodes' kind span) : Keeps nodes nodes' := by
  refine keeps_of_content fun i low => ?_
  rw [joined.old i low]
  cases nodes[i]? <;> simp

theorem new_or_old (joined : Joined nodes nodes' kind span) {i : Nat} {n : Node}
    (held : nodes'[i]? = some n) :
    (i = nodes.size ∧ n = ⟨kind, span, none, kind.children⟩) ∨
      i < nodes.size ∧ ∃ m, nodes[i]? = some m ∧ n = adopted nodes.size kind.children i m := by
  obtain ⟨low, -⟩ := Array.getElem?_eq_some_iff.1 held
  have size := joined.size
  rcases Nat.lt_or_ge i nodes.size with lt | ge
  · rw [joined.old i lt] at held
    obtain ⟨m, was, same⟩ := Option.map_eq_some_iff.1 held
    exact .inr ⟨lt, m, was, same.symm⟩
  · have last : i = nodes.size := by omega
    rw [last, joined.new] at held
    exact .inl ⟨last, (Option.some.inj held).symm⟩

theorem children (joined : Joined nodes nodes' kind span) :
    nodes'.toList.flatMap Node.children = nodes.toList.flatMap Node.children ++ kind.children := by
  have lists : nodes'.toList.map Node.children = nodes.toList.map Node.children ++ [kind.children] := by
    refine List.ext_getElem? fun i => ?_
    rw [List.getElem?_map, List.getElem?_append, List.length_map, Array.length_toList, Array.getElem?_toList]
    rcases Nat.lt_trichotomy i nodes.size with lt | rfl | gt
    · rw [joined.old i lt, if_pos lt, List.getElem?_map, Array.getElem?_toList]
      cases nodes[i]? <;> simp
    · simp [joined.new]
    · have beyond : nodes'[i]? = none := Array.getElem?_eq_none (by have := joined.size; omega)
      rw [beyond, if_neg (by omega), List.getElem?_eq_none (by simp; omega)]
      rfl
  rw [List.flatMap_def, List.flatMap_def, lists]
  simp

theorem child_iff (joined : Joined nodes nodes' kind span) {i p : NodeId} :
    (∃ owner : Node, nodes'[p]? = some owner ∧ i ∈ owner.children) ↔
      (p = nodes.size ∧ i ∈ kind.children) ∨ ∃ owner : Node, nodes[p]? = some owner ∧ i ∈ owner.children := by
  constructor
  · rintro ⟨owner, held, mem⟩
    rcases joined.new_or_old held with ⟨rfl, rfl⟩ | ⟨-, m, was, rfl⟩
    · exact .inl ⟨rfl, mem⟩
    · exact .inr ⟨m, was, by simpa using mem⟩
  · rintro (⟨rfl, mem⟩ | ⟨m, was, mem⟩)
    · exact ⟨_, joined.new, mem⟩
    · obtain ⟨low, -⟩ := Array.getElem?_eq_some_iff.1 was
      exact ⟨_, by rw [joined.old p low, was]; rfl, by simpa using mem⟩

end Joined

end Builder

namespace Forest

variable {b : Builder} {roots : List (NodeId × Tree)} {r : NodeId × Tree}

theorem perm {roots' : List (NodeId × Tree)} (forest : Forest b roots) (same : roots.Perm roots') :
    Forest b roots' where
  unclashed := forest.unclashed
  sound := forest.sound
  owned := ((same.map Prod.fst).append_right _).symm.trans forest.owned
  parent := forest.parent
  unfolds := fun r mem => forest.unfolds r (same.mem_iff.2 mem)

theorem swap {xs ys : List (NodeId × Tree)} (forest : Forest b (roots ++ xs ++ ys)) :
    Forest b (roots ++ ys ++ xs) := by
  rw [List.append_assoc] at forest ⊢
  exact forest.perm (List.perm_append_comm.append_left roots)

theorem nodup (forest : Forest b roots) :
    (roots.map Prod.fst ++ b.nodes.toList.flatMap Node.children).Nodup :=
  forest.owned.nodup_iff.2 List.nodup_range

section

variable (forest : Forest b roots) (mem : r ∈ roots)
include forest mem

theorem root_lt : r.1 < b.nodes.size := by
  have listed : r.1 ∈ roots.map Prod.fst ++ b.nodes.toList.flatMap Node.children :=
    List.mem_append_left _ (List.mem_map_of_mem mem)
  exact List.mem_range.1 (forest.owned.mem_iff.1 listed)

theorem not_child_of_root {p : NodeId} {owner : Node} (held : b.nodes[p]? = some owner) :
    r.1 ∉ owner.children := by
  intro child
  obtain ⟨-, -, apart⟩ := List.nodup_append.1 forest.nodup
  have inner : r.1 ∈ b.nodes.toList.flatMap Node.children :=
    List.mem_flatMap.2 ⟨owner, by simpa using Array.mem_of_getElem? held, child⟩
  exact apart r.1 (List.mem_map_of_mem mem) r.1 inner rfl

theorem free_of_root : b.nodes[r.1]?.bind Node.parent = none := by
  rw [Option.bind_eq_none_iff]
  intro n held
  cases parent : n.parent with
  | none => rfl
  | some p =>
    obtain ⟨owner, held', child⟩ := (forest.parent r.1 n held p).1 parent
    exact absurd child (forest.not_child_of_root mem held')

theorem span_of_root : b.span r.1 = r.2.span ∧ r.2.span.start ≤ r.2.span.stop := by
  obtain ⟨n, kind, held, -, same⟩ := Tree.ofNode_eq_some.1 (forest.unfolds r mem)
  have ordered := (forest.sound r.1 n held).ordered
  rw [same]
  exact ⟨by simp [Builder.span, held, Tree.span], ordered⟩

end

theorem push {k : Kind (NodeId × Tree)} {span : Span} (forest : Forest b (roots ++ k.children))
    (paired : k.Paired) (ordered : span.start ≤ span.stop) :
    Forest (b.push (k.map Prod.fst) span).2
      (roots ++ [((b.push (k.map Prod.fst) span).1, .node (k.map Prod.snd) span)]) ∧
      Keeps b.nodes (b.push (k.map Prod.fst) span).2.nodes := by
  have children : (k.map Prod.fst).children = k.children.map Prod.fst := Kind.children_map _ _
  have root {c : NodeId} (mem : c ∈ (k.map Prod.fst).children) : ∃ r ∈ roots ++ k.children, r.1 = c := by
    rw [children] at mem
    obtain ⟨r, mem, same⟩ := List.mem_map.1 mem
    exact ⟨r, List.mem_append_right _ mem, same⟩
  have before {c : NodeId} (mem : c ∈ (k.map Prod.fst).children) : c < b.nodes.size := by
    obtain ⟨r, held, rfl⟩ := root mem
    exact forest.root_lt held
  have distinct : (k.map Prod.fst).children.Nodup := by
    have := forest.nodup
    rw [List.map_append] at this
    rw [children]
    exact (List.nodup_append.1 (List.nodup_append.1 this).1).2.1
  have free : ∀ c ∈ (k.map Prod.fst).children, b.nodes[c]?.bind Node.parent = none := by
    intro c mem
    obtain ⟨r, held, rfl⟩ := root mem
    exact forest.free_of_root held
  obtain ⟨new, joined⟩ := b.push_joined span (paired.map Prod.fst)
  have unclashed := Builder.push_unclashed span (paired.map Prod.fst) distinct free
  rw [new]
  refine ⟨⟨unclashed.trans forest.unclashed, ?_, ?_, ?_, ?_⟩, joined.keeps⟩
  · intro i n held
    rcases joined.new_or_old held with ⟨rfl, rfl⟩ | ⟨-, m, was, rfl⟩
    · exact ⟨rfl, paired.map _, fun c mem => before mem, ordered⟩
    · obtain ⟨same, paired, before, ordered⟩ := forest.sound i m was
      constructor <;> simpa
  · rw [joined.children, joined.size, List.range_succ, children]
    have owned := forest.owned
    rw [List.perm_iff_count] at owned ⊢
    intro c
    have := owned c
    simp only [List.map_append, List.map_cons, List.map_nil, List.count_append] at this ⊢
    omega
  · intro i n held p
    rw [joined.child_iff]
    rcases joined.new_or_old held with ⟨rfl, rfl⟩ | ⟨low, m, was, rfl⟩
    · -- Nothing owns the new node: all children have smaller indices.
      refine ⟨by simp, ?_⟩
      rintro (⟨-, mem⟩ | ⟨owner, held, mem⟩)
      · exact absurd (before mem) (Nat.lt_irrefl _)
      · have := (forest.sound p owner held).before _ mem
        obtain ⟨low, -⟩ := Array.getElem?_eq_some_iff.1 held
        exact absurd (Nat.lt_trans this low) (Nat.lt_irrefl _)
    · by_cases mem : i ∈ (k.map Prod.fst).children
      · -- An adopted node was a root, so nothing owned it before.
        obtain ⟨r, root, rfl⟩ := root mem
        have alone : ¬∃ owner : Node, b.nodes[p]? = some owner ∧ r.1 ∈ owner.children :=
          fun ⟨owner, held, child⟩ => forest.not_child_of_root root held child
        simp only [Builder.adopted, mem, if_true, Option.some.injEq, alone, and_true, or_false]
        exact eq_comm
      · simp [Builder.adopted, mem, forest.parent i m was p]
  · intro r mem
    rcases List.mem_append.1 mem with mem | mem
    · exact joined.keeps _ _ (forest.unfolds r (List.mem_append_left _ mem))
    · cases List.mem_singleton.1 mem
      refine Tree.ofNode_eq_some.2 ⟨_, k.map Prod.snd, joined.new, ?_, rfl⟩
      refine Kind.mapM_map_fst paired fun c t mem => ?_
      have mem : (c, t) ∈ roots ++ k.children := List.mem_append_right _ mem
      have low : c < b.nodes.size := forest.root_lt mem
      simp only [low, if_true]
      exact joined.keeps _ _ (forest.unfolds (c, t) mem)

/-! ## Copies -/

theorem copyWithin {bound : Nat} {id : NodeId} (forest : Forest b roots) (low : id < bound) :
    Along b (Builder.copyWithin bound id) (Tree.ofNode b.nodes id) fun id' t b' =>
      Forest b' (roots ++ [(id', t)]) ∧ Keeps b.nodes b'.nodes := by
  induction bound generalizing b id roots with
  | zero => exact absurd low (Nat.not_lt_zero id)
  | succ bound ih =>
    intro t found
    obtain ⟨n, kind, held, inner, rfl⟩ := Tree.ofNode_eq_some.1 found
    have kind_eq : b.kind id = n.kind := by simp [Builder.kind, held]
    have span_eq : b.span id = n.span := by simp [Builder.span, held]
    -- The copies of the children stand beside the old roots, and the children themselves stay as
    -- they were.
    let Beside (c : Builder) (copies : List (NodeId × Tree)) : Prop :=
      Forest c (roots ++ copies) ∧ Keeps b.nodes c.nodes
    have each : ∀ child c copies, Beside c copies → Along c (Builder.copyWithin bound child)
        (if child < id then Tree.ofNode b.nodes child else none) fun id' t c' =>
          Beside c' (copies ++ [(id', t)]) := by
      rintro child c copies ⟨forest, keeps⟩ t found
      split at found
      case _ before =>
        obtain ⟨forest', keeps'⟩ :=
          ih forest (Nat.lt_of_lt_of_le before (Nat.le_of_lt_succ low)) t (keeps child t found)
        exact ⟨by simpa using forest', keeps.trans keeps'⟩
      · cases found
    have start : Beside b [] := ⟨by simpa using forest, .refl b.nodes⟩
    obtain ⟨q, ids, rfl, paired, forest', keeps⟩ := along_mapM each n.kind start kind inner
    obtain ⟨forest'', keeps'⟩ := forest'.push paired (forest.sound id n held).ordered
    have ran : (Builder.copyWithin (bound + 1) id).run b =
        ((n.kind.mapM (Builder.copyWithin bound)).run b).2.push (q.map Prod.fst) n.span := by
      rw [← ids, ← kind_eq, ← span_eq]
      rfl
    rw [ran]
    exact ⟨forest'', keeps.trans keeps'⟩

theorem deepCopy {id : NodeId} {t : Tree} (forest : Forest b roots)
    (found : Tree.ofNode b.nodes id = some t) :
    Forest (b.deepCopy id).2 (roots ++ [((b.deepCopy id).1, t)]) :=
  (forest.copyWithin (Nat.lt_succ_self id) t found).1

end Forest

/-! ## Trees -/

/-- One tree that fills its arena, with links that agree with it. -/
structure Ast.WellFormed (a : Ast) : Prop where
  parts_lt : ∀ (id : NodeId) (n : Node), a.nodes[id]? = some n → ∀ c ∈ n.kind.parts, c < a.size
  children_eq : ∀ (id : NodeId) (n : Node), a.nodes[id]? = some n → n.children = n.kind.children ∧
      ∀ c ∈ n.children, c < id
  root_last : a.root + 1 = a.size
  root_free : a.parent? a.root = none
  owned : ∀ id < a.size, id ≠ a.root → ∃ p owner, a.nodes[p]? = some owner ∧ owner.children.count id = 1 ∧
    a.parent? id = some p ∧ ∀ (q : NodeId) (other : Node), a.nodes[q]? = some other →
      id ∈ other.children → q = p
  climbs : ∀ id < a.size, (id :: a.ancestors id).getLast? = some a.root
  paired : ∀ (id : NodeId) (n : Node) (keys values : List NodeId), a.nodes[id]? = some n →
      n.kind = .dict keys values →
    keys.length = values.length
  ordered : ∀ (id : NodeId) (n : Node), a.nodes[id]? = some n → n.span.start ≤ n.span.stop

namespace Forest

variable {b : Builder} {root : Nat} {t : Tree}

theorem root_last (forest : Forest b [(root, t)]) : root + 1 = b.nodes.size := by
  have low : root < b.nodes.size := forest.root_lt (r := (root, t)) (by simp)
  -- The last node has no owner, since an owner comes after its children.
  have last : b.nodes.size - 1 ∈ [root] ++ b.nodes.toList.flatMap Node.children :=
    forest.owned.mem_iff.2 (List.mem_range.2 (by omega))
  rcases List.mem_append.1 last with same | inner
  · have := List.mem_singleton.1 same
    omega
  · obtain ⟨owner, mem, child⟩ := List.mem_flatMap.1 inner
    obtain ⟨p, held⟩ := List.mem_iff_getElem?.1 mem
    rw [Array.getElem?_toList] at held
    have before : b.nodes.size - 1 < p := (forest.sound p owner held).before _ child
    obtain ⟨low, -⟩ := Array.getElem?_eq_some_iff.1 held
    omega

theorem owner (forest : Forest b [(root, t)]) {id : Nat} (low : id < b.nodes.size) (other : id ≠ root) :
    ∃ (p : NodeId) (owner : Node), b.nodes[p]? = some owner ∧ id ∈ owner.children := by
  have listed : id ∈ [root] ++ b.nodes.toList.flatMap Node.children :=
    forest.owned.mem_iff.2 (List.mem_range.2 low)
  rcases List.mem_append.1 listed with same | inner
  · exact absurd (List.mem_singleton.1 same) other
  · obtain ⟨owner, mem, child⟩ := List.mem_flatMap.1 inner
    obtain ⟨p, held⟩ := List.mem_iff_getElem?.1 mem
    exact ⟨p, owner, by rw [← held, Array.getElem?_toList], child⟩

theorem count_children (forest : Forest b [(root, t)]) {p id : NodeId} {owner : Node}
    (held : b.nodes[p]? = some owner)
    (child : id ∈ owner.children) : owner.children.count id = 1 := by
  have mem : owner.children ∈ b.nodes.toList.map Node.children :=
    List.mem_map_of_mem (by simpa using Array.mem_of_getElem? held)
  have all : (b.nodes.toList.map Node.children).flatten.Nodup := by
    rw [← List.flatMap_def]
    exact (List.nodup_append.1 forest.nodup).2.1
  rw [((List.sublist_flatten_of_mem mem).nodup all).count, if_pos child]

theorem getLast_ancestorsWithin (forest : Forest b [(root, t)]) {file : Path} {hash : UInt64} {bound id : Nat}
    (low : id < b.nodes.size) (enough : b.nodes.size ≤ id + bound) :
    (id :: (b.finish file hash root).ancestorsWithin bound id).getLast? = some root := by
  induction bound generalizing id with
  | zero => omega
  | succ bound ih =>
    obtain ⟨n, held⟩ : ∃ n, b.nodes[id]? = some n := ⟨_, Array.getElem?_eq_getElem low⟩
    have up : (b.finish file hash root).parent? id = n.parent := by simp [Ast.parent?, Builder.finish, held]
    simp only [Ast.ancestorsWithin, up]
    cases parent : n.parent with
    | none =>
      have same : id = root := by
        refine Decidable.byContradiction fun other => ?_
        obtain ⟨p, owner, held', child⟩ := forest.owner low other
        rw [(forest.parent id n held p).2 ⟨owner, held', child⟩] at parent
        cases parent
      simp [same]
    | some p =>
      obtain ⟨owner, held', child⟩ := (forest.parent id n held p).1 parent
      obtain ⟨low', -⟩ := Array.getElem?_eq_some_iff.1 held'
      have after : id < p := (forest.sound p owner held').before _ child
      rw [List.getLast?_cons_cons]
      exact ih low' (by omega)

theorem wellFormed (forest : Forest b [(root, t)]) (file : Path) (hash : UInt64) :
    (b.finish file hash root).WellFormed where
  parts_lt := by
    intro id n held c mem
    have sound := forest.sound id n held
    obtain ⟨low, -⟩ := Array.getElem?_eq_some_iff.1 held
    have child : c ∈ n.children := sound.children_eq ▸ Kind.mem_children_of_paired sound.paired mem
    exact Nat.lt_trans (sound.before c child) low
  children_eq := fun id n held => ⟨(forest.sound id n held).children_eq, (forest.sound id n held).before⟩
  root_last := forest.root_last
  root_free := forest.free_of_root (r := (root, t)) (by simp)
  owned := by
    intro id low other
    obtain ⟨p, owner, held, child⟩ := forest.owner low other
    obtain ⟨n, here⟩ : ∃ n, b.nodes[id]? = some n := ⟨_, Array.getElem?_eq_getElem low⟩
    have parent : n.parent = some p := (forest.parent id n here p).2 ⟨owner, held, child⟩
    refine ⟨p, owner, held, forest.count_children held child, by
      simpa [Ast.parent?, Builder.finish, here] using parent, ?_⟩
    intro q other held' child'
    have := (forest.parent id n here q).2 ⟨other, held', child'⟩
    rw [parent] at this
    exact (Option.some.inj this).symm
  climbs := fun id low => forest.getLast_ancestorsWithin low (Nat.le_add_left _ _)
  paired := by
    intro id n keys values held dict
    have paired := (forest.sound id n held).paired
    rwa [dict] at paired
  ordered := fun id n held => (forest.sound id n held).ordered

end Forest

end RubyInfer
