import RubyInfer.Proofs.Store.Definition
import RubyInfer.Proofs.Store.Trimmed

/-!
# Removing a file undoes that file

A store is built by operations on the scopes and the registry. Removing a file from it leaves the
store that the operations of the other files alone build (`answers_erased`), but for the numbers of
the bindings: those stay as they were when the file goes, whereas without the file they are given
one after the other.
-/

namespace RubyInfer

structure Store where
  scopes : Scopes := {}
  registry : Registry := .empty

namespace Store

open Registry

inductive Op
  | push (kind : ScopeKind) (parent : Option ScopeId) (path : String)
  | insert (scope : ScopeId) (tier : Tier) (name qname : String) (kind : BindingKind)
      (node : NodeRef) (body : Span) (ty : Ty)
  | enter (scope : ScopeId) (name : String) (tier : Tier) (id : BindingId)
  | putRef (node : NodeRef) (ids : List BindingId)
  | mergeType (id : BindingId) (ty : Ty)
  | refineType (id : BindingId) (ty : Ty)

def insert (st : Store) (scope : ScopeId) (tier : Tier) (b : Binding) : Store :=
  let (_, scopes, registry) := st.scopes.insert st.registry scope tier b
  ⟨scopes, registry⟩

def step (st : Store) : Op → Store
  | .push kind parent path => { st with scopes := (st.scopes.push kind parent path).2 }
  | .insert scope tier name qname kind node body ty =>
    st.insert scope tier ⟨name, qname, kind, node, body, ty, []⟩
  | .enter scope name tier id => { st with scopes := st.scopes.enter scope name tier id }
  | .putRef node ids => { st with registry := st.registry.putRef node ids }
  | .mergeType id ty =>
    { st with registry := st.registry.modify id (·.mergeType ty) (Binding.definition_mergeType ty) }
  | .refineType id ty =>
    { st with registry := st.registry.modify id (·.refineType ty) (Binding.definition_refineType ty) }

def run (ops : List Op) : Store := ops.foldl step {}

def remove (st : Store) (file : Path) : Store :=
  let (removed, registry) := st.registry.removeFile file
  ⟨st.scopes.purge removed, registry⟩

/-- What an operation comes to without a file, given which bindings are kept: nothing, if it is
about a node or a binding of the file, and otherwise the same in the new numbers. -/
def Op.without (file : Path) (keep : BindingId → Bool) : Op → Option Op
  | .push kind parent path => some (.push kind parent path)
  | .insert scope tier name qname kind node body ty =>
    if node.file.same file then none else some (.insert scope tier name qname kind node body ty)
  | .enter scope name tier id => if keep id then some (.enter scope name tier (rank keep id)) else none
  | .putRef node ids => if node.file.same file then none else some (.putRef node (survivors keep ids))
  | .mergeType id ty => if keep id then some (.mergeType (rank keep id) ty) else none
  | .refineType id ty => if keep id then some (.refineType (rank keep id) ty) else none

def keeps (st : Store) (file : Path) (id : BindingId) : Bool := !(st.registry.get? id).any (isIn file)

/-- The operations without a file. A binding stays in its file and numbers are never used twice, so
the store that all operations build tells which bindings are the file's. -/
def erased (file : Path) (ops : List Op) : List Op := ops.filterMap (Op.without file ((run ops).keeps file))

/-! ## Bindings stay in their files -/

theorem definition?_step (st : Store) (op : Op) {id : BindingId} {d : Definition}
    (here : st.registry.definition? id = some d) :
    (st.step op).registry.definition? id = some d := by
  cases op with
  | push => exact here
  | insert scope tier name qname kind node body ty => exact definition?_register_of_some _ here
  | enter => exact here
  | putRef node ids => exact (definition?_putRef ..).trans here
  | mergeType i ty => exact (definition?_modify (Binding.definition_mergeType ty) ..).trans here
  | refineType i ty => exact (definition?_modify (Binding.definition_refineType ty) ..).trans here

theorem definition?_run (ops : List Op) {st : Store} {id : BindingId} {d : Definition}
    (here : st.registry.definition? id = some d) :
    (ops.foldl step st).registry.definition? id = some d := by
  induction ops generalizing st with
  | nil => exact here
  | cons op ops ih => exact ih (st.definition?_step op here)

/-! ## Running both -/

/-- The second store is what the first would be without a file. -/
structure Trimmed (file : Path) (keep : BindingId → Bool) (st st' : Store) : Prop where
  scopes : st.scopes.Trimmed keep st'.scopes
  registry : st.registry.Trimmed file keep st'.registry

variable {file : Path} {keep : BindingId → Bool} {st st' : Store}

theorem Trimmed.insert (trimmed : Trimmed file keep st st') (scope : ScopeId) (tier : Tier)
    {b : Binding} (unused : b.refs = []) (kept : keep (st.registry.register b).1 = !isIn file b) :
    Trimmed file keep (st.insert scope tier b) (if isIn file b then st' else st'.insert scope tier b) := by
  cases within : isIn file b with
  | true =>
    rw [within] at kept
    exact ⟨trimmed.scopes.enter_gone kept scope b.name tier, trimmed.registry.register_gone within kept⟩
  | false =>
    rw [within] at kept
    obtain ⟨number, registered⟩ := trimmed.registry.register_kept unused within kept
    have entered := trimmed.scopes.enter_kept kept scope b.name tier
    rw [← number] at entered
    exact ⟨entered, registered⟩

theorem Trimmed.step (trimmed : Trimmed file keep st st') (op : Op)
    (kept : ∀ id b, (st.step op).registry.get? id = some b → keep id = !isIn file b) :
    Trimmed file keep (st.step op) (((op.without file keep).map st'.step).getD st') := by
  cases op with
  | push kind parent path => exact ⟨trimmed.scopes.push kind parent path, trimmed.registry⟩
  | insert scope tier name qname kind node body ty =>
    let b : Binding := ⟨name, qname, kind, node, body, ty, []⟩
    obtain ⟨x, live, same⟩ := definition?_eq_some.mp (st.registry.definition?_register_self b)
    have inserted := trimmed.insert scope tier (b := b) rfl
      ((kept _ _ live).trans (congrArg not (isIn_congr same file)))
    rw [Op.without]
    cases within : node.file.same file with
    | true =>
      have inside : isIn file b = true := within
      rw [if_pos inside] at inserted
      exact inserted
    | false =>
      have outside : ¬ isIn file b = true := Bool.eq_false_iff.mp within
      rw [if_neg outside] at inserted
      exact inserted
  | enter scope name tier id =>
    rw [Op.without]
    cases known : keep id with
    | true => exact ⟨trimmed.scopes.enter_kept known scope name tier, trimmed.registry⟩
    | false => exact ⟨trimmed.scopes.enter_gone known scope name tier, trimmed.registry⟩
  | putRef node ids =>
    rw [Op.without]
    cases within : node.file.same file with
    | true => exact ⟨trimmed.scopes, trimmed.registry.putRef_gone within ids⟩
    | false => exact ⟨trimmed.scopes, trimmed.registry.putRef_kept within ids⟩
  | mergeType id ty =>
    have same := Binding.definition_mergeType ty
    rw [Op.without]
    cases known : keep id with
    | true => exact ⟨trimmed.scopes, trimmed.registry.modify_kept same known fun _ => rfl⟩
    | false => exact ⟨trimmed.scopes, trimmed.registry.modify_gone same known⟩
  | refineType id ty =>
    have same := Binding.definition_refineType ty
    rw [Op.without]
    cases known : keep id with
    | true => exact ⟨trimmed.scopes, trimmed.registry.modify_kept same known fun _ => rfl⟩
    | false => exact ⟨trimmed.scopes, trimmed.registry.modify_gone same known⟩

theorem Trimmed.run (trimmed : Trimmed file keep st st') (ops : List Op)
    (kept : ∀ id b, (ops.foldl Store.step st).registry.get? id = some b → keep id = !isIn file b) :
    Trimmed file keep (ops.foldl Store.step st)
      ((ops.filterMap (Op.without file keep)).foldl Store.step st') := by
  induction ops generalizing st st' with
  | nil => exact trimmed
  | cons op ops ih =>
    -- what is in the file at the end has been in it all along
    have next := trimmed.step op fun id b live => by
      obtain ⟨b', last, same⟩ :=
        definition?_eq_some.mp (definition?_run ops (definition?_eq_some.mpr ⟨b, live, rfl⟩))
      rw [kept id b' last, isIn_congr same]
    rw [List.filterMap_cons]
    cases left : op.without file keep with
    | none =>
      rw [left] at next
      exact ih next kept
    | some op' =>
      rw [left] at next
      exact ih next kept

theorem trimmed_erased (file : Path) (ops : List Op) :
    Trimmed file ((run ops).keeps file) (run ops) (run (erased file ops)) := by
  have empty : Trimmed file ((run ops).keeps file) {} {} := ⟨.empty _, .empty _ _⟩
  refine empty.run ops fun id b live => ?_
  unfold keeps run
  rw [live]
  rfl

/-! ## Answers -/

/-- Every question about the first store has the answer that it has about the second. Bindings have
their numbers in the first, and in the second the number of kept ones before them. -/
structure Answers (keep : BindingId → Bool) (st st' : Store) : Prop where
  order {i j : BindingId} : keep i = true → i < j → rank keep i < rank keep j
  get (id : BindingId) : st.registry.get? id = if keep id then st'.registry.get? (rank keep id) else none
  all : st.registry.all.map (fun e => (rank keep e.1, e.2)) = st'.registry.all
  size : st.registry.size = st'.registry.size
  referencesIn (file : Path) :
    (st.registry.referencesIn? file).map (List.map fun e => (e.1, e.2.map (rank keep))) =
      st'.registry.referencesIn? file
  crossReferences : st.registry.crossReferences = st'.registry.crossReferences
  referencingNodes : st.registry.referencingNodes = st'.registry.referencingNodes
  lookup (scope : ScopeId) (name : String) (tier : Tier) :
    (st.scopes.lookup? scope name tier).map (List.map (rank keep)) = st'.scopes.lookup? scope name tier
  defining (scope : ScopeId) (name : String) : st.scopes.defining? scope name =
      st'.scopes.defining? scope name

/-- **Removing a file undoes that file.** Nothing is asked of the numbers that operations name: one
that no binding has counts as kept. -/
theorem answers_erased (file : Path) (ops : List Op) :
    Answers ((run ops).keeps file) ((run ops).remove file) (run (erased file ops)) := by
  have trimmed := trimmed_erased file ops
  have removed (id : BindingId) : ((run ops).registry.idsIn file).contains id = !(run ops).keeps file id := by
    rw [contains_idsIn, keeps, Bool.not_not]
  have get := trimmed.registry.get?_removeFile
  have all := trimmed.registry.all_removeFile
  have references := trimmed.registry.references_removeFile removed
  exact {
    order := rank_lt_rank
    get := get
    all := all
    size := by
      unfold size
      rw [← all, List.length_map]
      rfl
    referencesIn := fun g => by
      unfold referencesIn?
      rw [← references, PathMap.get?_mapValues]
      rfl
    crossReferences := by
      unfold crossReferences
      rw [← all, List.map_map]
      rfl
    referencingNodes := by
      unfold referencingNodes PathMap.values
      rw [← references, PathMap.mapValues, List.map_map, List.map_map, List.map_map]
      congr 1
      exact List.map_congr_left fun entry _ => (List.length_map ..).symm
    lookup := trimmed.scopes.lookup?_purge removed
    defining := trimmed.scopes.defining?_purge removed }

end Store

end RubyInfer
