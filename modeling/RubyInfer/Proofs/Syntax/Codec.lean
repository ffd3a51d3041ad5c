import RubyInfer.Proofs.Json.Text
import RubyInfer.Proofs.Syntax.Kind
import RubyInfer.Syntax.Codec

/-!
# The stored form of a tree is read back

What `Ast.toJson` writes for a tree, `Ast.ofDocument?` reads as that tree (`Ast.ofDocument_toJson`),
as long as its indices fit in the 32 bits that the stored form has for them. Every record is written
with its fields in order and each of them once, so `record?` finds the fields as they were written
(`record_object`); after that each reader takes back what its writer wrote.
-/

namespace RubyInfer

structure Node.Fits (n : Node) : Prop where
  kind : ∀ id ∈ n.kind.parts, id < Nat.pow 2 32
  parent : ∀ id, n.parent = some id → id < Nat.pow 2 32
  children : ∀ id ∈ n.children, id < Nat.pow 2 32

structure Ast.Fits (a : Ast) : Prop where
  root : a.root < Nat.pow 2 32
  nodes : ∀ n ∈ a.nodes.toList, n.Fits

namespace Codec

open Document (ofJson ofItems ofFields)

variable {fields : List (String × Json)}

/-! ## Records -/

theorem ofItems_eq_map (items : List Json) : ofItems items = items.map ofJson := by
  induction items with
  | nil => rfl
  | cons v rest ih => rw [ofItems, ih, List.map_cons]

theorem ofFields_eq_map (fields : List (String × Json)) :
    ofFields fields = fields.map fun f => (some f.1, ofJson f.2) := by
  induction fields with
  | nil => rfl
  | cons f rest ih => rw [ofFields, ih, List.map_cons]

theorem known_of_keys (names : List String) (fields : List (String × Json))
    (all : ∀ f ∈ fields, f.1 ∈ names) :
    known names (fields.map fun f => (some f.1, ofJson f.2)) = fields.map Prod.fst := by
  induction fields with
  | nil => rfl
  | cons f rest ih =>
    have here : names.contains f.1 = true := by simpa using all f (by simp)
    have first : (some f.1).filter names.contains = some f.1 := by rw [Option.filter_some, if_pos here]
    have tail := ih fun g mem => all g (by simp [mem])
    rw [known] at tail ⊢
    rw [List.map_cons, List.filterMap_cons, first, tail]
    rfl

theorem find_key (distinct : (fields.map Prod.fst).Nodup) {f : String × Json} (mem : f ∈ fields) :
    ((fields.map fun f => (some f.1, ofJson f.2)).find? fun g => g.1 = some f.1) =
      some (some f.1, ofJson f.2) := by
  induction fields with
  | nil => cases mem
  | cons g rest ih =>
    obtain ⟨fresh, distinct⟩ := List.nodup_cons.1 distinct
    cases mem with
    | head => simp
    | tail _ mem =>
      have other : g.1 ≠ f.1 := fun same => fresh (List.mem_map.2 ⟨f, mem, same.symm⟩)
      rw [List.map_cons, List.find?_cons_of_neg (by simpa using other)]
      exact ih distinct mem

theorem record_object {names : List String} (keys : fields.map Prod.fst = names) (distinct : names.Nodup) :
    record? names (ofJson (.object fields)) = some (fields.map fun f => some (ofJson f.2)) := by
  subst keys
  have named : ∀ f ∈ fields, f.1 ∈ fields.map Prod.fst := fun f mem => List.mem_map_of_mem mem
  rw [ofJson, ofFields_eq_map, record?, if_pos]
  · congr 1
    rw [List.map_map]
    refine List.map_congr_left fun f mem => ?_
    rw [Function.comp_apply, find_key distinct mem, Option.map_some]
  · exact ⟨by simp, by rwa [known_of_keys _ _ named]⟩

/-! ## Fields -/

theorem readWord_nat {limit n : Nat} (bound : n < limit) :
    readWord? limit (ofJson (.nat n)) = some n := if_pos bound

theorem need_node {id : NodeId} (fits : id < Nat.pow 2 32 := by grind) :
    need? readNode? (some (ofJson (node id))) = some id :=
  readWord_nat fits

theorem may_node {o : Option NodeId} (fits : ∀ id, o = some id → id < Nat.pow 2 32 := by grind) :
    may? readNode? (some (ofJson (option node o))) = some o := by
  cases o with
  | none => rfl
  | some id =>
    have read : readNode? (ofJson (node id)) = some id := readWord_nat (fits id rfl)
    change (readNode? (ofJson (node id))).map some = _
    rw [read]
    rfl

theorem need_list {α : Type} {write : α → Json} {read : Document → Option α} {items : List α}
    (each : ∀ a ∈ items, read (ofJson (write a)) = some a) :
    need? (readList? read) (some (ofJson (list write items))) = some items := by
  change (ofItems (items.map write)).mapM read = some items
  rw [ofItems_eq_map, List.map_map]
  induction items with
  | nil => rfl
  | cons a rest ih =>
    have head : read (ofJson (write a)) = some a := each a (by simp)
    rw [List.map_cons, List.mapM_cons, Function.comp_apply, head, ih fun b mem => each b (by simp [mem])]
    rfl

theorem need_nodes {ids : List NodeId} (fits : ∀ id ∈ ids, id < Nat.pow 2 32 := by grind) :
    need? (readList? readNode?) (some (ofJson (list node ids))) = some ids :=
  need_list fun id mem => readWord_nat (fits id mem)

theorem may_text (doc : Option String) : may? readText? (some (ofJson (option .string doc))) = some doc := by
  cases doc <;> rfl

theorem need_op (op : Op) : need? readOp? (some (ofJson (.string op.name))) = some op := by
  cases op <;> rfl

theorem need_nameKind (k : NameKind) : need? readNameKind? (some (ofJson (.string k.name))) = some k := by
  cases k <;> rfl

theorem need_control (c : Control) : need? readControl? (some (ofJson (.string c.name))) = some c := by
  cases c <;> rfl

theorem step {α β : Type} {x : Option α} {a : α} {f : α → Option β} {r : Option β}
    (found : x = some a) (next : f a = r) :
    (x >>= f) = r := by
  rw [found]
  exact next

theorem need_span (s : Span) : need? readSpan? (some (ofJson (span s))) = some s := by
  refine step (record_object rfl (by decide)) ?_
  refine step (readWord_nat s.start.toNat_lt) (step (readWord_nat s.stop.toNat_lt) ?_)
  refine step (readWord_nat s.line.toNat_lt) (step (readWord_nat s.col.toNat_lt) ?_)
  simp

theorem need_params {p : Params NodeId} (fits : ∀ id ∈ p.children, id < Nat.pow 2 32) :
    need? readParams? (some (ofJson (params p))) = some p := by
  simp only [Params.children, List.mem_append, Option.mem_toList] at fits
  refine step (record_object rfl (by decide)) ?_
  refine step need_nodes (step need_nodes (step may_node ?_))
  exact step may_node (step need_nodes (step may_node rfl))

/-! ## Kinds -/

theorem nodup_of_layout : ∀ entry ∈ layout, entry.2.Nodup := by decide +kernel

theorem readKind_variant {name : String} {names : List String} (other : name ≠ "Void")
    (known : layout.lookup name = some names) (keys : fields.map Prod.fst = names) :
    readKind? (ofJson (variant name fields)) = readVariant? name (fields.map fun f => some (ofJson f.2)) := by
  have distinct : names.Nodup := by
    obtain ⟨before, after, split, -⟩ := List.lookup_eq_some_iff.1 known
    exact nodup_of_layout (name, names) (by simp [split])
  have found : record? names (ofJson (.object fields)) = _ := record_object keys distinct
  have choice : choice? (ofJson (variant name fields)) = some (name, some (ofJson (.object fields))) := rfl
  rw [readKind?, choice]
  simp only [Option.bind_eq_bind, Option.bind_some]
  split
  case _ same => cases same
  case _ same => exact absurd (Prod.mk.inj same).1 other
  case _ content _ _ same =>
    cases same
    rw [known, Option.bind_some, found, Option.bind_some]
  case _ same => cases same

theorem need_kind {k : Kind NodeId} (fits : ∀ id ∈ k.parts, id < Nat.pow 2 32) :
    need? readKind? (some (ofJson (kind k))) = some k := by
  change readKind? (ofJson (kind k)) = some k
  cases k
  case void => rfl
  case function locator ps body isLambda doc =>
    have inner : ∀ id ∈ ps.children, id < Nat.pow 2 32 :=
      fun id mem => fits id (by simp [Kind.parts, Kind.children, mem])
    simp only [Kind.parts, Kind.children, List.mem_append, Option.mem_toList] at fits
    refine (readKind_variant (by decide) rfl rfl).trans ?_
    exact step may_node (step (need_params inner) (step may_node (step rfl (step (may_text doc) rfl))))
  -- All others have their fields read in the order in which they are written.
  all_goals
    simp only [Kind.parts, Kind.children, List.mem_append, List.mem_cons, List.not_mem_nil,
      Option.mem_toList, or_imp, forall_and,
      forall_eq] at fits
    refine (readKind_variant (by decide) rfl rfl).trans ?_
  case block => exact step need_nodes rfl
  case moduleDef => exact step need_node (step may_node (step (may_text _) rfl))
  case classDef =>
    refine step need_node (step may_node (step may_node ?_))
    exact step rfl (step (may_text _) rfl)
  case call =>
    refine step need_node (step need_nodes (step need_nodes ?_))
    exact step may_node (step may_node rfl)
  case member => exact step need_node (step need_node rfl)
  case binary op _ _ => exact step (need_op op) (step need_node (step need_node rfl))
  case unary op _ => exact step (need_op op) (step need_node rfl)
  case assign => exact step need_node (step need_node rfl)
  case name k => exact step rfl (step (need_nameKind k) rfl)
  case symbol => exact step rfl rfl
  case str => exact step rfl rfl
  case strEmbed => exact step may_node rfl
  case regexp => exact step may_node (step may_node rfl)
  case int => exact step rfl rfl
  case float => exact step rfl rfl
  case array => exact step need_nodes rfl
  case dict => exact step need_nodes (step need_nodes rfl)
  case starred => exact step need_node rfl
  case keyword => exact step rfl (step may_node rfl)
  case branch => exact step need_node (step may_node (step may_node rfl))
  case loop => exact step need_node (step may_node rfl)
  case each => exact step need_node (step need_node (step may_node rfl))
  case guarded =>
    refine step may_node (step may_node ?_)
    exact step may_node (step may_node rfl)
  case handler =>
    refine step need_nodes (step may_node ?_)
    exact step may_node (step may_node rfl)
  case ret => exact step may_node rfl
  case yield => exact step may_node rfl
  case subscript => exact step need_node (step may_node rfl)
  case index => exact step need_node rfl
  case slice => exact step may_node (step may_node rfl)
  case control c => exact step (need_control c) rfl
  case undef => exact step need_nodes rfl

theorem readArenaNode_arenaNode {n : Node} (fits : n.Fits) :
    readArenaNode? (ofJson (arenaNode n)) = some n := by
  refine step (record_object rfl (by decide)) ?_
  refine step (need_kind fits.kind) (step (need_span n.span) ?_)
  exact step (may_node fits.parent) (step (need_nodes fits.children) rfl)

end Codec

theorem Ast.ofDocument_toJson {a : Ast} (fits : a.Fits) :
    Ast.ofDocument? (Document.ofJson a.toJson) = some a := by
  refine Codec.step (Codec.record_object rfl (by decide)) ?_
  refine Codec.step rfl (Codec.step (Codec.readWord_nat a.hash.toNat_lt) ?_)
  refine Codec.step (Codec.need_list fun n mem => Codec.readArenaNode_arenaNode (fits.nodes n mem)) ?_
  refine Codec.step (Codec.need_node fits.root) ?_
  simp

/-! ## Numbers of the stored form -/

namespace Codec

open Json (Whole)

theorem whole_nil : Whole (.object []) ↔ True := iff_true_intro (.object (by simp))

theorem whole_cons {key : String} {v : Json} {rest : List (String × Json)} :
    Whole (.object ((key, v) :: rest)) ↔ v.Whole ∧ Whole (.object rest) := by
  constructor
  · rintro (_ | _ | _ | _ | _ | each)
    exact ⟨each (key, v) (by simp), .object fun f mem => each f (by simp [mem])⟩
  · rintro ⟨first, _ | _ | _ | _ | _ | each⟩
    refine .object fun f mem => ?_
    cases mem with
    | head => exact first
    | tail _ mem => exact each f mem

theorem whole_string (s : String) : Whole (.string s) ↔ True := iff_true_intro (.string s)

theorem whole_bool (b : Bool) : Whole (.bool b) ↔ True := iff_true_intro (.bool b)

theorem whole_node {id : NodeId} (fits : id < Nat.pow 2 32) : (node id).Whole :=
  .nat (Nat.lt_trans fits (by decide))

theorem whole_option {o : Option NodeId} (fits : ∀ id, o = some id → id < Nat.pow 2 32) :
    (option node o).Whole := by
  cases o with
  | none => exact .null
  | some id => exact whole_node (fits id rfl)

theorem whole_text (doc : Option String) : (option .string doc).Whole := by
  cases doc with
  | none => exact .null
  | some s => exact .string s

theorem whole_list {α : Type} {write : α → Json} {items : List α}
    (each : ∀ a ∈ items, (write a).Whole) : (list write items).Whole := by
  refine .array fun v mem => ?_
  obtain ⟨a, held, rfl⟩ := List.mem_map.1 mem
  exact each a held

theorem whole_nodes {ids : List NodeId} (fits : ∀ id ∈ ids, id < Nat.pow 2 32) : (list node ids).Whole :=
  whole_list fun id mem => whole_node (fits id mem)

theorem whole_span (s : Span) : (span s).Whole := by
  have small (w : UInt32) : w.toNat < Nat.pow 2 64 := Nat.lt_trans w.toNat_lt (by decide)
  simp only [span, whole_cons, whole_nil, and_true]
  exact ⟨.nat s.start.toNat_lt, .nat s.stop.toNat_lt, .nat (small s.line), .nat (small s.col)⟩

theorem whole_params {p : Params NodeId} (fits : ∀ id ∈ p.children, id < Nat.pow 2 32) :
    (params p).Whole := by
  simp only [Params.children, List.mem_append, Option.mem_toList] at fits
  simp only [params, whole_cons, whole_nil, and_true]
  exact ⟨whole_nodes (by grind), whole_nodes (by grind), whole_option (by grind),
    whole_option (by grind), whole_nodes (by grind),
    whole_option (by grind)⟩

theorem whole_kind {k : Kind NodeId} (fits : ∀ id ∈ k.parts, id < Nat.pow 2 32) : (kind k).Whole := by
  cases k
  case function locator ps body isLambda doc =>
    have inner : ∀ id ∈ ps.children, id < Nat.pow 2 32 :=
      fun id mem => fits id (by simp [Kind.parts, Kind.children, mem])
    simp only [Kind.parts, Kind.children, List.mem_append, Option.mem_toList] at fits
    simp only [kind, variant, whole_cons, whole_nil, and_true, whole_bool, true_and]
    exact ⟨whole_option (by grind), whole_params inner, whole_option (by grind), whole_text doc⟩
  all_goals
    simp only [Kind.parts, Kind.children, List.mem_append, List.mem_cons, List.not_mem_nil,
      Option.mem_toList, or_imp, forall_and,
      forall_eq] at fits
    simp (disch := grind) only [kind, variant, whole_cons, whole_nil, and_true, whole_bool, whole_string,
      whole_node, whole_option, whole_nodes, whole_text]

theorem whole_arenaNode {n : Node} (fits : n.Fits) : (arenaNode n).Whole := by
  simp only [arenaNode, whole_cons, whole_nil, and_true]
  exact ⟨whole_kind fits.kind, whole_span n.span, whole_option fits.parent, whole_nodes fits.children⟩

end Codec

theorem Ast.whole_toJson {a : Ast} (fits : a.Fits) : a.toJson.Whole := by
  simp only [toJson, Codec.whole_cons, Codec.whole_nil, and_true, Codec.whole_string, true_and]
  exact ⟨.nat a.hash.toNat_lt, Codec.whole_list fun n mem =>
    Codec.whole_arenaNode (fits.nodes n mem), Codec.whole_node fits.root⟩

end RubyInfer
