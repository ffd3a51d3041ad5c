import RubyInfer.Proofs.Syntax.Forest

/-!
# Copies within an arena

A copy is made in the arena that it is read from. `Copies` says by rules what copying comes to,
without a bound: the children of a node are copied one after the other, and then the node itself is
pushed. Because children come before their owners (`Builder.Ordered`), copying ends
(`copies_copyWithin`), touches nothing that was there, and puts down the nodes of the copy in the
order in which `subtree` lists them (`Fresh`).
-/

namespace RubyInfer

/-! ## Kinds -/

namespace Kind

variable {α β γ : Type}

theorem map_map (g : β → γ) (f : α → β) (k : Kind α) : (k.map f).map g = k.map (g ∘ f) := by
  cases k <;> simp [Kind.map, Params.map]

theorem map_self (k : Kind α) : k.map (fun a => a) = k := by
  cases k <;> simp [Kind.map, Params.map]

theorem interleave_take (keys values : List α) :
    interleave (keys.take values.length) (values.take keys.length) = interleave keys values := by
  induction keys generalizing values with
  | nil => simp [interleave]
  | cons k keys ih => cases values <;> simp [interleave, ih]

theorem children_paired (k : Kind α) : k.paired.children = k.children := by
  cases k with
  | dict keys values => exact interleave_take keys values
  | _ => rfl

theorem paired_paired (k : Kind α) : k.paired.Paired := by
  cases k with
  | dict keys values => simp [Kind.paired, Paired, Nat.min_comm]
  | _ => trivial

theorem Paired.of_map {k : Kind α} {f : α → β} (paired : (k.map f).Paired) : k.Paired := by
  cases k with
  | dict keys values => simpa [Kind.map, Paired] using paired
  | _ => trivial

theorem mapM_map {k : Kind γ} (paired : k.Paired) {f : γ → α} {g : γ → β} {h : α → Option β}
    (each : ∀ c ∈ k.children, h (f c) = some (g c)) : (k.map f).mapM h = some (k.map g) := by
  have sides := mapM_map_fst (h := h) (paired.map fun c => (f c, g c)) fun a b mem => by
    rw [children_map] at mem
    obtain ⟨c, inside, same⟩ := List.mem_map.mp mem
    cases same
    exact each c inside
  rwa [map_map, map_map] at sides

end Kind

theorem Tree.ofNode_node {α : Type} {nodes : Array Node} {id : NodeId} {n : Node} {k : Kind α}
    {f : α → NodeId} {g : α → Tree}
    (held : nodes[id]? = some n) (kind : n.kind = k.map f) (paired : k.Paired)
    (each : ∀ c ∈ k.children, f c < id ∧ Tree.ofNode nodes (f c) = some (g c)) :
    Tree.ofNode nodes id = some (.node (k.map g) n.span) := by
  refine Tree.ofNode_eq_some.mpr ⟨n, k.map g, held, ?_, rfl⟩
  rw [kind]
  refine Kind.mapM_map paired fun c mem => ?_
  obtain ⟨before, found⟩ := each c mem
  rw [if_pos before, found]

/-! ## Subtrees -/

/-- The nodes below a node and itself, each after its children. A node with several owners counts
once for each. -/
def subtree (nodes : Array Node) (id : NodeId) : List NodeId :=
  ((nodes[id]?.map Node.children).getD []).flatMap
    (fun child => if _before : child < id then subtree nodes child else []) ++ [id]
termination_by id

theorem subtree_congr {nodes nodes' : Array Node} {id : NodeId}
    (same : ∀ i ≤ id, nodes'[i]?.map Node.children = nodes[i]?.map Node.children) :
    subtree nodes' id = subtree nodes id := by
  induction id using Nat.strongRecOn with
  | ind id ih =>
    rw [subtree, subtree, same id (Nat.le_refl id)]
    congr 2
    funext child
    split
    case _ before => exact ih child before fun i low => same i (Nat.le_of_lt (Nat.lt_of_le_of_lt low before))
    · rfl

theorem getLast?_subtree (nodes : Array Node) (id : NodeId) : (subtree nodes id).getLast? = some id := by
  rw [subtree]
  simp

theorem mem_subtree_self (nodes : Array Node) (id : NodeId) : id ∈ subtree nodes id :=
  List.mem_of_getLast? (getLast?_subtree nodes id)

theorem subtree_eq {nodes : Array Node} {id : NodeId} {n : Node} (held : nodes[id]? = some n)
    (before : ∀ c ∈ n.children, c < id) :
    subtree nodes id = n.children.flatMap (subtree nodes) ++ [id] := by
  rw [subtree, held]
  rw [Option.map_some, Option.getD_some, List.flatMap_def, List.flatMap_def,
    List.map_congr_left fun c mem => dif_pos (before c mem)]

theorem sublist_flatMap_subtree (nodes : Array Node) (ids : List NodeId) :
    ids.Sublist (ids.flatMap (subtree nodes)) := by
  induction ids with
  | nil => simp
  | cons id ids ih =>
    rw [List.flatMap_cons]
    exact (List.singleton_sublist.mpr (mem_subtree_self nodes id)).append ih

theorem flatMap_subtree_congr {nodes nodes' : Array Node} {ids : List NodeId}
    (same : ∀ i ∈ ids, subtree nodes' i = subtree nodes i) :
    ids.flatMap (subtree nodes') = ids.flatMap (subtree nodes) := by
  rw [List.flatMap_def, List.flatMap_def, List.map_congr_left same]

/-! ## Children before owners -/

structure Node.AfterChildren (n : Node) (id : NodeId) : Prop where
  children_eq : n.children = n.kind.children
  paired : n.kind.Paired
  before : ∀ child ∈ n.children, child < id

namespace Builder

variable {b : Builder} {id : NodeId}

def Ordered (b : Builder) : Prop := ∀ (id : NodeId) (n : Node), b.nodes[id]? = some n → n.AfterChildren id

theorem push_paired (b : Builder) (kind : Kind NodeId) (span : Span) :
    b.push kind.paired span = b.push kind span := by
  rw [push, push, Kind.paired_eq kind.paired_paired]

theorem Ordered.push (ordered : b.Ordered) {kind : Kind NodeId} (span : Span)
    (there : ∀ c ∈ kind.children, c < b.nodes.size) :
    (b.push kind span).2.Ordered := by
  rw [← push_paired]
  obtain ⟨-, joined⟩ := b.push_joined span kind.paired_paired
  intro i n held
  rcases joined.new_or_old held with ⟨rfl, rfl⟩ | ⟨-, m, was, rfl⟩
  · refine ⟨rfl, kind.paired_paired, fun c mem => there c ?_⟩
    rwa [← Kind.children_paired]
  · obtain ⟨same, paired, before⟩ := ordered i m was
    constructor <;> simpa

theorem Ordered.exists_tree (ordered : b.Ordered) (there : id < b.nodes.size) :
    ∃ t, Tree.ofNode b.nodes id = some t := by
  induction id using Nat.strongRecOn with
  | ind id ih =>
    obtain ⟨n, held⟩ : ∃ n, b.nodes[id]? = some n := ⟨_, Array.getElem?_eq_getElem there⟩
    obtain ⟨same, paired, before⟩ := ordered id n held
    refine ⟨_, Tree.ofNode_node (g := fun c => (Tree.ofNode b.nodes c).getD .empty) held
      n.kind.map_self.symm paired fun c mem => ?_⟩
    have low := before c (same ▸ mem)
    obtain ⟨t, found⟩ := ih c low (Nat.lt_trans low there)
    exact ⟨low, by rw [found, Option.getD_some]⟩

namespace Joined

variable {nodes nodes' : Array Node} {kind : Kind NodeId} {span : Span} {i : NodeId}

theorem kept (joined : Joined nodes nodes' kind span) (low : i < nodes.size)
    (apart : i ∉ kind.children) : nodes'[i]? = nodes[i]? := by
  rw [joined.old i low]
  cases nodes[i]? <;> simp [adopted, apart]

theorem subtree_old (joined : Joined nodes nodes' kind span) (low : i < nodes.size) :
    subtree nodes' i = subtree nodes i := by
  refine subtree_congr fun j le => ?_
  rw [joined.old j (Nat.lt_of_le_of_lt le low)]
  cases nodes[j]? <;> simp

end Joined

/-! ## Copying -/

/-- Nodes are copied one after the other. Each copy stands beside the node that it was made of. -/
inductive Copies : Builder → List (NodeId × NodeId) → Builder → Prop
  | nil (b : Builder) : Copies b [] b
  | cons {b c d : Builder} {id : NodeId} {n : Node} {parts : Kind (NodeId × NodeId)}
      {rest : List (NodeId × NodeId)}
      (held : b.nodes[id]? = some n) (kind : n.kind = parts.map Prod.snd) (inner : Copies b parts.children c)
      (others : Copies (c.push (parts.map Prod.fst) n.span).2 rest d) :
      Copies b (((c.push (parts.map Prod.fst) n.span).1, id) :: rest) d

structure Fresh (b : Builder) (pairs : List (NodeId × NodeId)) (c : Builder) : Prop where
  ordered : c.Ordered
  kept : ∀ i < b.nodes.size, c.nodes[i]? = b.nodes[i]?
  size : c.nodes.size = b.nodes.size + ((pairs.map Prod.snd).flatMap (subtree b.nodes)).length
  ids : (pairs.map Prod.fst).flatMap (subtree c.nodes) =
    List.range' b.nodes.size ((pairs.map Prod.snd).flatMap (subtree b.nodes)).length
  unfolds : ∀ p ∈ pairs, Tree.ofNode c.nodes p.1 = Tree.ofNode b.nodes p.2
  free : ∀ i ∈ pairs.map Prod.fst, c.nodes[i]?.bind Node.parent = none
  clash : c.clash = b.clash

variable {c d : Builder} {xs ys : List (NodeId × NodeId)}

theorem subtree_kept (kept : ∀ i < b.nodes.size, c.nodes[i]? = b.nodes[i]?) (low : id < b.nodes.size) :
    subtree c.nodes id = subtree b.nodes id :=
  subtree_congr fun i le => by rw [kept i (Nat.lt_of_le_of_lt le low)]

theorem ofNode_kept (kept : ∀ i < b.nodes.size, c.nodes[i]? = b.nodes[i]?) (low : id < b.nodes.size) :
    Tree.ofNode c.nodes id = Tree.ofNode b.nodes id :=
  Tree.ofNode_congr fun i le => by rw [kept i (Nat.lt_of_le_of_lt le low)]

namespace Fresh

theorem nil (ordered : b.Ordered) : Fresh b [] b := ⟨ordered, fun _ _ => rfl, rfl, rfl, by simp, by simp, rfl⟩

theorem grown (fresh : Fresh b xs c) : b.nodes.size ≤ c.nodes.size := fresh.size ▸ Nat.le_add_right ..

theorem new (fresh : Fresh b xs c) {i : NodeId} (mem : i ∈ xs.map Prod.fst) :
    b.nodes.size ≤ i ∧ i < c.nodes.size := by
  have listed := (sublist_flatMap_subtree c.nodes (xs.map Prod.fst)).subset mem
  rwa [fresh.ids, List.mem_range'_1, ← fresh.size] at listed

theorem nodup (fresh : Fresh b xs c) : (xs.map Prod.fst).Nodup := by
  have roots := sublist_flatMap_subtree c.nodes (xs.map Prod.fst)
  rw [fresh.ids] at roots
  exact roots.nodup List.nodup_range'

theorem append (first : Fresh b xs c) (second : Fresh c ys d)
    (there : ∀ i ∈ ys.map Prod.snd, i < b.nodes.size) :
    Fresh b (xs ++ ys) d := by
  have originals : (ys.map Prod.snd).flatMap (subtree c.nodes) =
      (ys.map Prod.snd).flatMap (subtree b.nodes) :=
    flatMap_subtree_congr fun i mem => subtree_kept first.kept (there i mem)
  have copies : (xs.map Prod.fst).flatMap (subtree d.nodes) = (xs.map Prod.fst).flatMap (subtree c.nodes) :=
    flatMap_subtree_congr fun i mem => subtree_kept second.kept (first.new mem).2
  have size := second.size
  have ids := second.ids
  rw [originals, first.size] at size ids
  refine ⟨second.ordered, fun i low => ?_, ?_, ?_, fun p mem => ?_, fun i mem => ?_,
    second.clash.trans first.clash⟩
  · rw [second.kept i (Nat.lt_of_lt_of_le low first.grown), first.kept i low]
  · rw [size, List.map_append, List.flatMap_append, List.length_append, Nat.add_assoc]
  · rw [List.map_append, List.map_append, List.flatMap_append, List.flatMap_append, copies,
      first.ids, ids, List.length_append,
      List.range'_append_1]
  · rcases List.mem_append.mp mem with early | late
    · rw [ofNode_kept second.kept (first.new (List.mem_map_of_mem early)).2, first.unfolds p early]
    · rw [second.unfolds p late, ofNode_kept first.kept (there p.2 (List.mem_map_of_mem late))]
  · rw [List.map_append, List.mem_append] at mem
    rcases mem with early | late
    · rw [second.kept i (first.new early).2, first.free i early]
    · exact second.free i late

section Owner

variable {n : Node} {parts : Kind (NodeId × NodeId)} (fresh : Fresh b parts.children c) (ordered : b.Ordered)
  (held : b.nodes[id]? = some n) (kind : n.kind = parts.map Prod.snd)

include ordered held kind in
theorem originals : parts.Paired ∧ (∀ i ∈ parts.children.map Prod.snd, i < id) ∧
    subtree b.nodes id = (parts.children.map Prod.snd).flatMap (subtree b.nodes) ++ [id] := by
  obtain ⟨listed, paired, before⟩ := ordered id n held
  have children : n.children = parts.children.map Prod.snd := by rw [listed, kind, Kind.children_map]
  refine ⟨(kind ▸ paired).of_map, children ▸ before, ?_⟩
  rw [subtree_eq held before, children]

include fresh ordered held kind in
theorem unfolds_owner {nodes : Array Node} (joined : Joined c.nodes nodes (parts.map Prod.fst) n.span) :
    Tree.ofNode nodes c.nodes.size = Tree.ofNode b.nodes id := by
  obtain ⟨paired, before, -⟩ := originals ordered held kind
  obtain ⟨low, -⟩ := Array.getElem?_eq_some_iff.mp held
  -- Both unfold to the same tree, put together from the trees of the originals.
  let tree (p : NodeId × NodeId) : Tree := (Tree.ofNode b.nodes p.2).getD .empty
  have each : ∀ p ∈ parts.children, p.2 < id ∧ Tree.ofNode b.nodes p.2 = some (tree p) := by
    intro p mem
    have early := before p.2 (List.mem_map_of_mem mem)
    obtain ⟨t, found⟩ := ordered.exists_tree (Nat.lt_trans early low)
    exact ⟨early, by rw [found, show tree p = t by simp [tree, found]]⟩
  have copied : ∀ p ∈ parts.children, p.1 < c.nodes.size ∧ Tree.ofNode nodes p.1 = some (tree p) := by
    intro p mem
    refine ⟨(fresh.new (List.mem_map_of_mem mem)).2, joined.keeps _ _ ?_⟩
    rw [fresh.unfolds p mem, (each p mem).2]
  have copy := Tree.ofNode_node joined.new rfl paired copied
  rw [copy, Tree.ofNode_node held kind paired each]

include fresh ordered held kind in
theorem push : Fresh b [((c.push (parts.map Prod.fst) n.span).1, id)]
    (c.push (parts.map Prod.fst) n.span).2 := by
  obtain ⟨paired, -, whole⟩ := originals ordered held kind
  have copies : (parts.map Prod.fst).children = parts.children.map Prod.fst := Kind.children_map ..
  have recent {i : NodeId} (mem : i ∈ (parts.map Prod.fst).children) := fresh.new (copies ▸ mem)
  obtain ⟨last, joined⟩ := c.push_joined n.span (paired.map Prod.fst)
  have copied : subtree (c.push (parts.map Prod.fst) n.span).2.nodes c.nodes.size =
      (parts.children.map Prod.fst).flatMap (subtree c.nodes) ++ [c.nodes.size] := by
    rw [subtree_eq joined.new fun i mem => (recent mem).2, flatMap_subtree_congr fun i mem =>
      joined.subtree_old (recent mem).2, copies]
  have unclashed := push_unclashed (b := c) n.span (paired.map Prod.fst) (copies ▸ fresh.nodup)
    (copies ▸ fresh.free)
  rw [last]
  refine ⟨fresh.ordered.push n.span fun i mem => (recent mem).2, fun i low => ?_, ?_, ?_, ?_, ?_,
    unclashed.trans fresh.clash⟩
  · rw [joined.kept (Nat.lt_of_lt_of_le low fresh.grown) fun mem =>
    Nat.not_le_of_lt low (recent mem).1, fresh.kept i low]
  · rw [joined.size, fresh.size, List.map_singleton, List.flatMap_singleton, whole,
      List.length_append, List.length_singleton,
      Nat.add_assoc]
  · rw [List.map_singleton, List.flatMap_singleton, copied, fresh.ids, List.map_singleton,
      List.flatMap_singleton, whole,
      List.length_append, List.length_singleton, List.range'_1_concat, fresh.size]
  · intro p mem
    cases List.mem_singleton.mp mem
    exact fresh.unfolds_owner ordered held kind joined
  · simp [joined.new]

end Owner

end Fresh

namespace Copies

theorem fresh (copies : Copies b xs c) (ordered : b.Ordered)
    (there : ∀ i ∈ xs.map Prod.snd, i < b.nodes.size) : Fresh b xs c := by
  induction copies with
  | nil b => exact .nil ordered
  | @cons b c d id n parts rest held kind inner others ihInner ihOthers =>
    obtain ⟨-, before, -⟩ := Fresh.originals ordered held kind
    obtain ⟨low, -⟩ := Array.getElem?_eq_some_iff.mp held
    have first := (ihInner ordered fun i mem => Nat.lt_trans (before i mem) low).push ordered held kind
    rw [List.map_cons, List.forall_mem_cons] at there
    exact first.append (ihOthers first.ordered fun i mem =>
      Nat.lt_of_lt_of_le (there.2 i mem) first.grown) there.2

theorem append (first : Copies b xs c) (second : Copies c ys d) : Copies b (xs ++ ys) d := by
  induction first with
  | nil b => exact second
  | cons held kind inner _ _ ih => exact .cons held kind inner (ih second)

end Copies

theorem copies_copyWithin {bound : Nat} (ordered : b.Ordered) (there : id < b.nodes.size) (low : id < bound) :
    Copies b [(((copyWithin bound id).run b).1, id)] ((copyWithin bound id).run b).2 := by
  induction bound generalizing b id with
  | zero => exact absurd low (Nat.not_lt_zero id)
  | succ bound ih =>
    obtain ⟨n, held⟩ : ∃ n, b.nodes[id]? = some n := ⟨_, Array.getElem?_eq_getElem there⟩
    obtain ⟨listed, paired, before⟩ := ordered id n held
    let Copied (c : Builder) (pairs : List (NodeId × NodeId)) : Prop :=
      Copies b pairs c ∧ ∀ i ∈ pairs.map Prod.snd, i < b.nodes.size
    have each : ∀ child c pairs, Copied c pairs →
        Along c (copyWithin bound child) (if child < id then some child else none)
        fun new child c' => Copied c' (pairs ++ [(new, child)]) := by
      rintro child c pairs ⟨copies, old⟩ _ found
      obtain ⟨early, same⟩ := Option.ite_none_right_eq_some.mp found
      cases same
      have fresh := copies.fresh ordered old
      have inside := Nat.lt_trans early there
      have next := ih fresh.ordered (Nat.lt_of_lt_of_le inside fresh.grown)
        (Nat.lt_of_lt_of_le early (Nat.le_of_lt_succ low))
      refine ⟨copies.append next, fun i mem => ?_⟩
      rw [List.map_append, List.mem_append] at mem
      rcases mem with mem | mem
      · exact old i mem
      · exact List.mem_singleton.mp mem ▸ inside
    have visited : (n.kind.mapM fun child => if child < id then some child else none) = some n.kind := by
      have all := Kind.mapM_map (f := fun c => c) (g := fun c => c)
        (h := fun child => if child < id then some child else none) paired
        fun c mem => if_pos (before c (listed ▸ mem))
      rwa [Kind.map_self] at all
    obtain ⟨parts, news, kind, -, copies, -⟩ := along_mapM each n.kind ⟨.nil b, by simp⟩ n.kind visited
    have ran : (copyWithin (bound + 1) id).run b =
        ((n.kind.mapM (copyWithin bound)).run b).2.push (parts.map Prod.fst) n.span := by
      have kind_eq : b.kind id = n.kind := by simp [Builder.kind, held]
      have span_eq : b.span id = n.span := by simp [Builder.span, held]
      rw [← news, ← kind_eq, ← span_eq]
      rfl
    rw [ran]
    exact .cons held kind (by simpa using copies) (.nil _)

/-! ## Builders -/

/-- The builders that come about when children are pushed before their owner, which may not be the
only one. -/
inductive Built : Builder → Prop
  | new : Built {}
  | push {b : Builder} (built : Built b) {kind : Kind NodeId} (span : Span)
      (there : ∀ c ∈ kind.children, c < b.size) :
      Built (b.push kind span).2
  | deepCopy {b : Builder} (built : Built b) {id : NodeId} (there : id < b.size) : Built (b.deepCopy id).2

theorem copies_deepCopy (ordered : b.Ordered) (there : id < b.nodes.size) :
    Copies b [((b.deepCopy id).1, id)] (b.deepCopy id).2 ∧
      Fresh b [((b.deepCopy id).1, id)] (b.deepCopy id).2 := by
  have copies := copies_copyWithin ordered there (Nat.lt_succ_self id)
  exact ⟨copies, copies.fresh ordered (by simpa using there)⟩

theorem Built.ordered (built : b.Built) : b.Ordered := by
  induction built with
  | new =>
    intro id n held
    simp at held
  | push _ span there ih => exact ih.push span there
  | deepCopy _ there ih => exact (copies_deepCopy ih there).2.ordered

/-- **A copy is faithful and stands apart.** In every builder whose nodes were pushed after their
children, and for each of its nodes, copying ends. All nodes that were there stay as they are, and
no node is given a second owner. As many nodes are new as the subtree has; the copy is the last of
them and has no owner. Both unfold to the same tree, and the nodes of the copy, each after its
children, are the new ones in their order. -/
theorem deepCopy_faithful (built : b.Built) (there : id < b.size) :
    ∃ new c, b.deepCopy id = (new, c) ∧ Copies b [(new, id)] c ∧
      (∀ i < b.size, c.nodes[i]? = b.nodes[i]?) ∧ c.clash = b.clash ∧ c.Ordered ∧
      c.size = b.size + (subtree b.nodes id).length ∧
      new + 1 = c.size ∧ c.nodes[new]?.map Node.parent = some none ∧
      (∃ t, Tree.ofNode b.nodes id = some t ∧ Tree.ofNode c.nodes new = some t) ∧
      subtree c.nodes new = List.range' b.size (subtree b.nodes id).length := by
  obtain ⟨copies, fresh⟩ := copies_deepCopy built.ordered there
  obtain ⟨t, found⟩ := built.ordered.exists_tree there
  rcases made : b.deepCopy id with ⟨new, c⟩
  rw [made] at copies fresh
  have size := fresh.size
  have ids := fresh.ids
  simp only [List.map_singleton, List.flatMap_singleton] at size ids
  have last : new + 1 = c.nodes.size := by
    have ends := getLast?_subtree c.nodes new
    rw [ids, List.getLast?_range'] at ends
    grind
  obtain ⟨n, held⟩ : ∃ n, c.nodes[new]? = some n := ⟨_, Array.getElem?_eq_getElem (fresh.new (by simp)).2⟩
  have free := fresh.free new (by simp)
  refine ⟨new, c, rfl, copies, fresh.kept, fresh.clash, fresh.ordered, size, last, ?_, ⟨t, found, ?_⟩, ids⟩
  · rw [held, Option.bind_some] at free
    rw [held, Option.map_some, free]
  · rw [fresh.unfolds (new, id) (List.mem_singleton_self _), found]

def table : Builder :=
  let b := (push {} (.name "k" .plain) default).2
  let b := (b.push (.int "1") default).2
  let b := (b.push (.name "j" .plain) default).2
  let b := (b.push (.str "v") default).2
  (b.push (.dict [0, 2] [1, 3]) default).2

def tables : Builder := ((table.deepCopy 4).2.push (.binary .equal 4 9) default).2

theorem built_tables : tables.Built := by
  have table : table.Built := by
    refine .push (.push (.push (.push (.push .new _ ?_) _ ?_) _ ?_) _ ?_) _ ?_ <;> decide +kernel
  exact .push (.deepCopy table (by decide +kernel)) _ (by decide +kernel)

theorem deepCopy_faithful_tables :
    tables.Built ∧ 10 < tables.size ∧ ∃ c, tables.deepCopy 10 = (21, c) ∧ c.nodes[9]? = tables.nodes[9]? ∧
      subtree c.nodes 21 = [11, 12, 13, 14, 15, 16, 17, 18, 19, 20, 21] ∧
      ∃ t, Tree.ofNode tables.nodes 10 = some t ∧ Tree.ofNode c.nodes 21 = some t := by
  have there : 10 < tables.size := by decide +kernel
  obtain ⟨new, c, made, -, kept, -, -, size, last, -, unfolds, ids⟩ := deepCopy_faithful built_tables there
  have before : tables.size = 11 := by decide +kernel
  have after : (tables.deepCopy 10).2.size = 22 := by decide +kernel
  rw [made] at after
  rw [after] at size last
  have count : (subtree tables.nodes 10).length = 11 := by omega
  cases last
  rw [before, count] at ids
  exact ⟨built_tables, there, c, made, kept 9 (by decide +kernel), ids, unfolds⟩

end Builder

end RubyInfer
