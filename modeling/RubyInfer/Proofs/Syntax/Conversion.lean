import RubyInfer.Proofs.Syntax.Forest

/-!
# Reading a dump into an arena

The arena that a dump is read into holds the tree that the dump stands for, and a dump that stands
for no tree fails with the same error. `Mirrors` puts a conversion beside the reading that it stands
for. Each part that is converted adds what it gave to the roots of the forest (`Adds`), and a node
takes the roots that are its children away again. In this way the roots always say what the
conversion still holds in its hands, and at the end there is exactly one.
-/

namespace RubyInfer

namespace Span

theorem right_le_max (a b : UInt64) : b ≤ max a b := by
  show b ≤ if a ≤ b then b else a
  split
  · exact UInt64.le_refl b
  case _ above => exact UInt64.le_of_lt (UInt64.not_le.1 above)

theorem left_le_max (a b : UInt64) : a ≤ max a b := by
  show a ≤ if a ≤ b then b else a
  split
  · assumption
  · exact UInt64.le_refl a

theorem new_ordered (start stop : UInt64) (line col : UInt32) :
    (new start stop line col).start ≤ (new start stop line col).stop :=
  right_le_max stop start

theorem cover_ordered {a b : Span} (ha : a.start ≤ a.stop) (hb : b.start ≤ b.stop) :
    (a.cover b).start ≤ (a.cover b).stop := by
  unfold cover
  split
  · exact UInt64.le_trans ha (left_le_max _ _)
  · exact UInt64.le_trans hb (right_le_max _ _)

end Span

namespace Dump

variable {α β γ δ : Type} {b : Builder} {roots : List (NodeId × Tree)}

def Error.InDump : Error → Prop
  | .owned _ => False
  | _ => True

theorem Error.InDump.ne_owned {e : Error} (inDump : e.InDump) (child : NodeId) : e ≠ .owned child := by
  rintro rfl
  exact inDump

/-- From `b`, the conversion and the reading fail with the same error, or both end and their results
stand in `post`. -/
def Mirrors (b : Builder) (x : Convert α) (y : Except Error β) (post : α → β → Builder → Prop) : Prop :=
  match x.run b, y with
  | .ok (a, b'), .ok t => post a t b'
  | .error e, .error e' => e = e' ∧ e.InDump
  | _, _ => False

namespace Mirrors

variable {post : α → β → Builder → Prop} {mid : α → β → Builder → Prop} {y : Except Error β} {x : Convert α}

theorem pure {a : α} {t : β} (holds : post a t b) : Mirrors b (pure a) (pure t) post := holds

theorem throw {e : Error} (inDump : e.InDump) : Mirrors b (throw e) (throw e) post := ⟨rfl, inDump⟩

theorem bind {f : α → Convert γ} {g : β → Except Error δ} {post : γ → δ → Builder → Prop}
    (first : Mirrors b x y mid)
    (next : ∀ a t b', mid a t b' → Mirrors b' (f a) (g t) post) : Mirrors b (x >>= f) (y >>= g) post := by
  unfold Mirrors at first
  cases ran : x.run b with
  | error e =>
    cases y with
    | error e' =>
      rw [ran] at first
      simp only [Mirrors, StateT.run_bind, ran]
      exact first
    | ok t => simp [ran] at first
  | ok result =>
    cases y with
    | error e' => simp [ran] at first
    | ok t =>
      rw [ran] at first
      have rest := next result.1 t result.2 first
      simp only [Mirrors, StateT.run_bind, ran] at rest ⊢
      exact rest

theorem get {f : Builder → Convert α} (holds : Mirrors b (f b) y post) : Mirrors b (get >>= f) y post := holds

theorem step {t : β} {f : α → Convert γ} {y : Except Error δ} {post : γ → δ → Builder → Prop}
    (first : Mirrors b x (Pure.pure t) mid)
    (next : ∀ {b'} a, mid a t b' → Mirrors b' (f a) y post) : Mirrors b (x >>= f) y post := by
  unfold Mirrors at first
  cases ran : x.run b with
  | error e => simp [ran, Pure.pure, Except.pure] at first
  | ok result =>
    rw [ran] at first
    have rest := next result.1 first
    simp only [Mirrors, StateT.run_bind, ran] at rest ⊢
    exact rest

theorem arrange {f : β → γ} {post : α → γ → Builder → Prop} (first : Mirrors b x y mid)
    (holds : ∀ a t b', mid a t b' → post a (f t) b') :
    Mirrors b x (do return f (← y)) post := by
  have both : Mirrors b (x >>= Pure.pure) (y >>= fun t => Pure.pure (f t)) post :=
    first.bind fun a t b' mid => .pure (holds a t b' mid)
  rwa [bind_pure] at both

end Mirrors

/-! ## Parts -/

def Adds (roots : List (NodeId × Tree)) (o : Option NodeId) (t : Option Tree) (b : Builder) : Prop :=
  ∃ p : Option (NodeId × Tree), o = p.map Prod.fst ∧ t = p.map Prod.snd ∧ Forest b (roots ++ p.toList)

/-! The same of what has several parts: all of them are roots, until the node that they belong to
takes them. -/

def AddsParams (roots : List (NodeId × Tree)) (ids : Params NodeId) (ts : Params Tree) (b : Builder) : Prop :=
  ∃ q : Params (NodeId × Tree), ids = q.map Prod.fst ∧ ts = q.map Prod.snd ∧ Forest b (roots ++ q.children)

def AddsKind (roots : List (NodeId × Tree)) (ids : Kind NodeId) (ts : Kind Tree) (b : Builder) : Prop :=
  ∃ k : Kind (NodeId × Tree), ids = k.map Prod.fst ∧ ts = k.map Prod.snd ∧ k.Paired ∧
    Forest b (roots ++ k.children)

def AddsArguments (roots : List (NodeId × Tree)) (ids : List NodeId × List NodeId)
    (ts : List (Option Tree × Option Tree)) (b : Builder) : Prop :=
  ∃ ps qs : List (NodeId × Tree), ids = (ps.map Prod.fst, qs.map Prod.fst) ∧
    ts.filterMap Prod.fst = ps.map Prod.snd ∧
    ts.filterMap Prod.snd = qs.map Prod.snd ∧ Forest b (roots ++ (ps ++ qs))

def AddsEntries (roots : List (NodeId × Tree)) (ids : List NodeId × List NodeId)
    (ts : List (Tree × Tree)) (b : Builder) : Prop :=
  ∃ ks vs : List (NodeId × Tree), ids = (ks.map Prod.fst, vs.map Prod.fst) ∧
    ts.map Prod.fst = ks.map Prod.snd ∧
    ts.map Prod.snd = vs.map Prod.snd ∧ ks.length = vs.length ∧ Forest b (roots ++ Kind.interleave ks vs)

def Follows (visit : Visit) (read : Tree.Read) : Prop :=
  ∀ v b roots, Forest b roots → Mirrors b (visit v) (read v) (Adds roots)

theorem keep_mirrors {built : NodeId × Builder} {t : Tree}
    (forest : Forest built.2 (roots ++ [(built.1, t)])) :
    Mirrors b (keep built) (pure t) fun id t b' => Forest b' (roots ++ [(id, t)]) := by
  unfold keep
  rw [forest.unclashed]
  exact forest

theorem push_mirrors {k : Kind (NodeId × Tree)} {span : Span}
    (forest : Forest b (roots ++ k.children)) (paired : k.Paired)
    (ordered : span.start ≤ span.stop) :
    Mirrors b (push (k.map Prod.fst) span) (pure (.node (k.map Prod.snd) span)) fun id t b' =>
      Forest b' (roots ++ [(id, t)]) :=
  .get (keep_mirrors (forest.push paired ordered).1)

theorem copy_mirrors {p : NodeId × Tree} (forest : Forest b roots) (mem : p ∈ roots) :
    Mirrors b (copy p.1) (pure p.2) fun id t b' => Forest b' (roots ++ [(id, t)]) :=
  .get (keep_mirrors (forest.deepCopy (forest.unfolds p mem)))

section Parts

variable {visit : Visit} {read : Tree.Read} {span : Span}

section

variable (follows : Follows visit read) (forest : Forest b roots)
include follows forest

theorem optional_mirrors (fields : Fields) (key : String) :
    Mirrors b (optional visit fields key) (Tree.optional read fields key) (Adds roots) := by
  unfold optional Tree.optional
  cases fields.lookup key with
  | none => exact .pure ⟨none, rfl, rfl, by simpa using forest⟩
  | some v => exact follows v b roots forest

theorem required_mirrors (fields : Fields) (key type : String) :
    Mirrors b (required visit fields key type) (Tree.required read fields key type) fun id t b' =>
      Forest b' (roots ++ [(id, t)]) := by
  unfold required Tree.required
  refine (optional_mirrors follows forest fields key).bind ?_
  rintro _ _ b' ⟨p, rfl, rfl, forest'⟩
  cases p with
  | none => exact .throw trivial
  | some p => exact .pure forest'

theorem nodes_mirrors (items : List Json) :
    Mirrors b (nodes visit items) (items.mapM (Tree.item read)) fun ids ts b' =>
      ∃ ps : List (NodeId × Tree), ids = ps.map Prod.fst ∧ ts.filterMap id = ps.map Prod.snd ∧
        Forest b' (roots ++ ps) := by
  induction items generalizing b roots with
  | nil => exact .pure ⟨[], rfl, rfl, by simpa using forest⟩
  | cons v rest ih =>
    rw [List.mapM_cons]
    cases v with
    | object fields =>
      refine (follows (.object fields) b roots forest).bind ?_
      rintro _ _ b₁ ⟨p, rfl, rfl, forest₁⟩
      refine (ih forest₁).bind ?_
      rintro _ ts b₂ ⟨ps, rfl, found, forest₂⟩
      exact .pure ⟨p.toList ++ ps, by cases p <;> simp, by cases p <;> simpa using found, by
        simpa using forest₂⟩
    | _ => exact .throw trivial

theorem list_mirrors (fields : Fields) (key : String) :
    Mirrors b (list visit fields key) (Tree.list read fields key) fun ids ts b' =>
      ∃ ps : List (NodeId × Tree), ids = ps.map Prod.fst ∧ ts = ps.map Prod.snd ∧
        Forest b' (roots ++ ps) := by
  unfold list Tree.list
  cases fields.lookup key with
  | none => exact .pure ⟨[], rfl, rfl, by simpa using forest⟩
  | some v =>
    cases v with
    | null => exact .pure ⟨[], rfl, rfl, by simpa using forest⟩
    | array items => exact (nodes_mirrors follows forest items).arrange fun _ _ _ found => found
    | _ => exact .throw trivial

end

/-! A part and what follows it. -/

section Binds

variable {post : γ → δ → Builder → Prop} {fields : Fields}

theorem optional_bind (follows : Follows visit read) (forest : Forest b roots) {key : String}
    {f : Option NodeId → Convert γ} {g : Option Tree → Except Error δ}
    (next : ∀ {b' : Builder} (p : Option (NodeId × Tree)), Forest b' (roots ++ p.toList) →
      Mirrors b' (f (p.map Prod.fst)) (g (p.map Prod.snd)) post) :
    Mirrors b (optional visit fields key >>= f) (Tree.optional read fields key >>= g) post := by
  refine (optional_mirrors follows forest fields key).bind ?_
  rintro _ _ b' ⟨p, rfl, rfl, forest'⟩
  exact next p forest'

theorem required_bind (follows : Follows visit read) (forest : Forest b roots) {key type : String}
    {f : NodeId → Convert γ} {g : Tree → Except Error δ}
    (next : ∀ {b' : Builder} (p : NodeId × Tree), Forest b' (roots ++ [p]) →
    Mirrors b' (f p.1) (g p.2) post) :
    Mirrors b (required visit fields key type >>= f) (Tree.required read fields key type >>= g) post :=
  (required_mirrors follows forest fields key type).bind fun id t _ forest' => next (id, t) forest'

theorem list_bind (follows : Follows visit read) (forest : Forest b roots) {key : String}
    {f : List NodeId → Convert γ} {g : List Tree → Except Error δ}
    (next : ∀ {b' : Builder} (ps : List (NodeId × Tree)), Forest b' (roots ++ ps) →
      Mirrors b' (f (ps.map Prod.fst)) (g (ps.map Prod.snd)) post) :
    Mirrors b (list visit fields key >>= f) (Tree.list read fields key >>= g) post := by
  refine (list_mirrors follows forest fields key).bind ?_
  rintro _ _ b' ⟨ps, rfl, rfl, forest'⟩
  exact next ps forest'

end Binds

theorem params_mirrors (follows : Follows visit read) (forest : Forest b roots) (v : Option Json) :
    Mirrors b (params visit v) (Tree.params read v) (AddsParams roots) := by
  have empty : Mirrors b (pure {}) (pure {}) (AddsParams roots) :=
    .pure ⟨{}, rfl, rfl, by simpa [Params.children] using forest⟩
  cases v with
  | none => exact empty
  | some v =>
    cases v with
    | object fields =>
      refine list_bind follows forest fun positional forest₁ => ?_
      refine list_bind follows forest₁ fun defaults forest₂ => ?_
      refine optional_bind follows forest₂ fun rest forest₃ => ?_
      refine optional_bind follows forest₃ fun restKw forest₄ => ?_
      refine list_bind follows forest₄ fun afterRest forest₅ => ?_
      refine optional_bind follows forest₅ fun blockArg forest₆ => ?_
      exact .pure ⟨⟨positional, defaults, rest, restKw, afterRest, blockArg⟩, rfl,
        rfl, by simpa [Params.children] using forest₆⟩
    | _ => exact empty

theorem spanOf_ordered (fields : Fields) : (spanOf fields).start ≤ (spanOf fields).stop :=
  Span.new_ordered _ _ _ _

section

variable (follows : Follows visit read) (forest : Forest b roots)
include follows forest

theorem arguments_mirrors (items : List Json) :
    Mirrors b (arguments visit items) (items.mapM (Tree.argument read)) (AddsArguments roots) := by
  induction items generalizing b roots with
  | nil => exact .pure ⟨[], [], rfl, rfl, rfl, by simpa using forest⟩
  | cons v rest ih =>
    rw [List.mapM_cons]
    cases v with
    | object fields =>
      rw [arguments, Tree.argument, Tree.namedArgument?_eq, Tree.place_eq]
      cases keywordForm? fields with
      | some form =>
        simp only [bind_assoc, pure_bind]
        refine (follows form.2 b roots forest).bind ?_
        rintro _ _ b₁ ⟨p, rfl, rfl, forest₁⟩
        refine (push_mirrors (k := .keyword form.1 p) forest₁ trivial (spanOf_ordered fields)).step ?_
        intro _ keyword forest₂
        refine (ih forest₂).bind ?_
        rintro _ ts b₃ ⟨ps, qs, rfl, args, keywords, forest₃⟩
        refine .pure ⟨ps, (keyword, .node ((Kind.keyword form.1 p).map Prod.snd) (spanOf fields)) ::
          qs, rfl, by simp [args],
          by simp [keywords, Kind.map], forest₃.perm ?_⟩
        rw [List.append_assoc, List.singleton_append]
        exact List.perm_middle.symm.append_left roots
      | none =>
        simp only [bind_assoc, pure_bind]
        refine (follows (.object fields) b roots forest).bind ?_
        rintro _ _ b₁ ⟨p, rfl, rfl, forest₁⟩
        refine (ih forest₁).bind ?_
        rintro _ ts b₂ ⟨ps, qs, rfl, args, keywords, forest₂⟩
        refine .pure ⟨p.toList ++ ps, qs, ?_, ?_, by simp [keywords], by simpa using forest₂⟩
        · cases p <;> simp
        · cases p <;> simp [args]
    | _ => exact .throw trivial

theorem positional_mirrors (args : Fields) :
    Mirrors b (positional visit args) (Tree.arguments read args) (AddsArguments roots) := by
  have empty : Mirrors b (pure ([], [])) (pure []) (AddsArguments roots) :=
    .pure ⟨[], [], rfl, rfl, rfl, by simpa using forest⟩
  unfold positional Tree.arguments
  cases args.lookup "positional" with
  | none => exact empty
  | some v =>
    cases v with
    | array items => exact arguments_mirrors follows forest items
    | _ => exact empty

theorem call_mirrors (fields : Fields) :
    Mirrors b (call visit fields) (Tree.call read fields) (AddsKind roots) := by
  refine required_bind follows forest fun {b₁} func forest₁ => ?_
  have bare : Mirrors b₁ (pure (.call func.1 [] [] none none)) (pure (.call func.2 [] [] none none))
      (AddsKind roots) :=
    .pure ⟨.call func [] [] none none, rfl, rfl, trivial, by simpa [Kind.children] using forest₁⟩
  cases fields.lookup "args" with
  | none => exact bare
  | some v =>
    cases v with
    | object inner =>
      refine (positional_mirrors follows forest₁ inner).bind ?_
      rintro _ ts b₂ ⟨ps, qs, rfl, args, keywords, forest₂⟩
      refine optional_bind follows forest₂ fun star forest₃ => ?_
      refine optional_bind follows forest₃ fun blockArg forest₄ => ?_
      rw [args, keywords]
      exact .pure ⟨.call func ps qs star blockArg, rfl, rfl, trivial, by simpa [Kind.children] using forest₄⟩
    | _ => exact bare

theorem entries_mirrors (items : List Json) :
    Mirrors b (entries visit items) ((items.filter Tree.isEntry).mapM (Tree.entry read))
      (AddsEntries roots) := by
  induction items generalizing b roots with
  | nil => exact .pure ⟨[], [], rfl, rfl, rfl, rfl, by simpa [Kind.interleave] using forest⟩
  | cons v rest ih =>
    cases v with
    | object fields =>
      rw [entries, List.filter_cons]
      have same : Tree.isEntry (.object fields) =
          ((fields.lookup "key").any isNode && (fields.lookup "value").any isNode) := by
        rw [Tree.isEntry, Tree.isPart_eq]
      rw [same]
      by_cases entry : ((fields.lookup "key").any isNode && (fields.lookup "value").any isNode) = true
      · rw [if_pos entry, if_pos entry, List.mapM_cons]
        simp only [Tree.entry, bind_assoc, pure_bind]
        refine required_bind follows forest fun key forest₁ => ?_
        refine required_bind follows forest₁ fun value forest₂ => ?_
        refine (ih forest₂).bind ?_
        rintro _ ts b₃ ⟨ks, vs, rfl, keys, values, same, forest₃⟩
        refine .pure ⟨key :: ks, value :: vs, rfl, by simp [keys], by simp [values], by simp [same], ?_⟩
        simpa [Kind.interleave] using forest₃
      · rw [if_neg entry, if_neg entry]
        exact ih forest
    | _ => exact ih forest

theorem pairs_mirrors (fields : Fields) :
    Mirrors b (pairs visit fields) (Tree.entries read fields) (AddsEntries roots) := by
  have empty : Mirrors b (pure ([], [])) (pure []) (AddsEntries roots) :=
    .pure ⟨[], [], rfl, rfl, rfl, rfl, by simpa [Kind.interleave] using forest⟩
  unfold pairs Tree.entries
  cases fields.lookup "entries" with
  | none => exact empty
  | some v =>
    cases v with
    | array items => exact entries_mirrors follows forest items
    | _ => exact empty

end

theorem operator_mirrors (name : String) :
    Mirrors b (operator name) (Tree.operator name) fun op op' b' => op = op' ∧ b' = b := by
  unfold operator Tree.operator
  rw [Tree.operator?_eq]
  cases Operator.ofName? name with
  | none => exact .throw trivial
  | some op => exact .pure ⟨rfl, rfl⟩

/-! ## Nodes -/

theorem put_mirrors (k : Kind (NodeId × Tree)) {all : List (NodeId × Tree)} (forest : Forest b all)
    (ordered : span.start ≤ span.stop)
    (same : all = roots ++ k.children := by simp [Kind.children]) (paired : k.Paired := by trivial) :
    Mirrors b (some <$> push (k.map Prod.fst) span) (pure (some (.node (k.map Prod.snd) span)))
      (Adds roots) := by
  rw [map_eq_pure_bind]
  refine (push_mirrors (same ▸ forest) paired ordered).step fun id forest' => ?_
  exact .pure ⟨some (id, _), rfl, rfl, forest'⟩

theorem binary_mirrors (follows : Follows visit read) (forest : Forest b roots) (fields : Fields)
    (ordered : span.start ≤ span.stop) :
    Mirrors b (binary visit fields span) (Tree.binary read fields span) fun id t b' =>
      Forest b' (roots ++ [(id, t)]) := by
  unfold Tree.binary
  rw [Tree.symbol_eq]
  refine required_bind follows forest fun left forest₁ => ?_
  refine required_bind follows forest₁ fun {b₂} right forest₂ => ?_
  let compared (op : Op) : Tree := .node (.binary op left.2 right.2) span
  have compare (op : Op) : Mirrors b₂ (push (.binary op left.1 right.1) span) (pure (compared op))
      fun id t b' => Forest b' (roots ++ [(id, t)]) :=
    push_mirrors (k := .binary op left right) (by simpa [Kind.children] using forest₂) trivial ordered
  have negated (op : Op) : Mirrors b₂ (do push (.unary .not (← push (.binary op left.1 right.1) span)) span)
      (pure (.node (.unary .not (compared op)) span)) fun id t b' => Forest b' (roots ++ [(id, t)]) := by
    refine (compare op).step fun id forest₃ => ?_
    exact push_mirrors (k := .unary .not (id, compared op)) forest₃ trivial ordered
  have orEqual (op : Op) : Mirrors b₂ (do
        let left2 ← copy left.1
        let right2 ← copy right.1
        let strict ← push (.binary op left.1 right.1) span
        let equal ← push (.binary .equal left2 right2) span
        push (.binary .or strict equal) span)
      (pure (.node (.binary .or (compared op) (compared .equal)) span)) fun id t b' =>
        Forest b' (roots ++ [(id, t)]) := by
    refine (copy_mirrors forest₂ (p := left) (by simp)).step fun left2 forest₃ => ?_
    refine (copy_mirrors forest₃ (p := right) (by simp)).step fun {b₄} right2 forest₄ => ?_
    -- The originals go into the strict comparison, the copies into the equality.
    let left' : NodeId × Tree := (left2, left.2)
    let right' : NodeId × Tree := (right2, right.2)
    have all : Forest b₄ (roots ++ [left, right] ++ [left', right']) := by simpa using forest₄
    refine (push_mirrors (k := .binary op left right) all.swap trivial ordered).step fun strict forest₅ => ?_
    refine (push_mirrors (k := .binary .equal left' right') forest₅.swap trivial ordered).step
      fun {b₆} equal forest₆ => ?_
    have both : Forest b₆ (roots ++ [(strict, compared op), (equal, compared .equal)]) := by
      rw [List.append_assoc] at forest₆
      exact forest₆
    exact push_mirrors (k := .binary .or (strict, compared op) (equal, compared .equal)) both trivial ordered
  refine (operator_mirrors _).bind ?_
  rintro op _ b' ⟨rfl, rfl⟩
  cases op with
  | primitive op => exact compare op
  | notEqual => exact negated .equal
  | notMatch => exact negated .isMatch
  | notIn => exact negated .isIn
  | atMost => exact orEqual .lt
  | atLeast => exact orEqual .gt

theorem slicePlace_eq {lower upper : Option (NodeId × Tree)}
    (forest : Forest b (roots ++ lower.toList ++ upper.toList))
    {whole : Span} (ordered : whole.start ≤ whole.stop) :
    let t := Tree.slice (lower.map Prod.snd) (upper.map Prod.snd) whole
    slicePlace b whole (lower.map Prod.fst) (upper.map Prod.fst) = t.span ∧ t.span.start ≤ t.span.stop := by
  cases lower with
  | none => exact ⟨rfl, ordered⟩
  | some l =>
    cases upper with
    | none => exact ⟨rfl, ordered⟩
    | some u =>
      obtain ⟨low, inOrder⟩ := forest.span_of_root (r := l) (by simp)
      obtain ⟨high, inOrder'⟩ := forest.span_of_root (r := u) (by simp)
      refine ⟨?_, Span.cover_ordered inOrder inOrder'⟩
      simp only [slicePlace, Option.map_some, low, high]
      rfl

theorem subscript_mirrors (follows : Follows visit read) (forest : Forest b roots) (fields : Fields)
    (ordered : span.start ≤ span.stop) :
    Mirrors b (subscript visit fields span) (Tree.subscript read fields span) (Adds roots) := by
  -- The part in brackets comes first, the value after it.
  have finish {b : Builder} (part : Option (NodeId × Tree)) (forest : Forest b (roots ++ part.toList)) :
      Mirrors b (do
          let value ← required visit fields "value" "subscript"
          some <$> push (.subscript value (part.map Prod.fst)) span)
        (do return some (.node (.subscript (← Tree.required read fields "value" "subscript")
          (part.map Prod.snd)) span))
        (Adds roots) := by
    refine required_bind follows forest fun value forest₁ => ?_
    exact put_mirrors (.subscript value part) forest₁.swap ordered
  unfold subscript Tree.subscript
  rw [Tree.isPart_eq]
  cases fields.lookup "slice" with
  | none => exact finish none (by simpa using forest)
  | some v =>
    cases v with
    | array items =>
      dsimp only
      generalize items.filter isNode = parts
      rcases parts with _ | ⟨low, _ | ⟨high, _ | ⟨more, rest⟩⟩⟩
      · exact optional_mirrors follows forest fields "value"
      · refine (follows low b roots forest).bind ?_
        rintro _ _ b₁ ⟨p, rfl, rfl, forest₁⟩
        cases p with
        | none => exact finish none forest₁
        | some p =>
          obtain ⟨place, inOrder⟩ := forest₁.span_of_root (r := p) (by simp)
          refine .get ?_
          rw [place]
          refine (push_mirrors (k := .index p) forest₁ trivial inOrder).step fun id forest₂ => ?_
          exact finish (some (id, .node (.index p.2) p.2.span)) forest₂
      · refine (follows low b roots forest).bind ?_
        rintro _ _ b₁ ⟨lower, rfl, rfl, forest₁⟩
        refine (follows high b₁ _ forest₁).bind ?_
        rintro _ _ b₂ ⟨upper, rfl, rfl, forest₂⟩
        obtain ⟨place, inOrder⟩ := slicePlace_eq forest₂ ordered
        refine .get ?_
        rw [place]
        rw [List.append_assoc] at forest₂
        refine (push_mirrors (k := .slice lower upper) forest₂ trivial inOrder).step fun id forest₃ => ?_
        exact finish (some (id, Tree.slice (lower.map Prod.snd) (upper.map Prod.snd) span)) forest₃
      · exact optional_mirrors follows forest fields "value"
    | _ =>
      refine (follows _ b roots forest).bind ?_
      rintro _ _ b₁ ⟨p, rfl, rfl, forest₁⟩
      exact finish p forest₁

theorem build_mirrors (follows : Follows visit read) (forest : Forest b roots) (type : String)
    (fields : Fields) (form : Form) :
    Mirrors b (build visit type fields form) (Tree.build read type fields form) (Adds roots) := by
  have ordered := spanOf_ordered fields
  have part (key : String) := optional_mirrors follows forest fields key
  unfold Tree.build
  rw [Tree.place_eq, Tree.holdsMethods_eq, Tree.doc_eq, Tree.symbol_eq, Tree.word_eq]
  cases form with
  | program => exact part "body"
  | module =>
    dsimp only [build]
    split
    · exact part "body"
    · refine required_bind follows forest fun locator forest₁ => ?_
      refine optional_bind follows forest₁ fun body forest₂ => ?_
      exact put_mirrors (.moduleDef locator body (doc? fields)) forest₂ ordered
  | block =>
    refine list_bind follows forest fun stmts forest₁ => ?_
    exact put_mirrors (.block stmts) forest₁ ordered
  | function isLambda =>
    refine optional_bind follows forest fun locator forest₁ => ?_
    refine (params_mirrors follows forest₁ _).bind ?_
    rintro _ _ b₂ ⟨params, rfl, rfl, forest₂⟩
    refine optional_bind follows forest₂ fun body forest₃ => ?_
    exact put_mirrors (.function locator params body isLambda (doc? fields)) forest₃ ordered
  | call =>
    refine (call_mirrors follows forest fields).bind ?_
    rintro _ _ b₁ ⟨k, rfl, rfl, paired, forest₁⟩
    exact put_mirrors k forest₁ ordered rfl paired
  | member =>
    refine required_bind follows forest fun target forest₁ => ?_
    refine required_bind follows forest₁ fun attr forest₂ => ?_
    exact put_mirrors (.member target attr) forest₂ ordered
  | binary =>
    dsimp only [build]
    rw [map_eq_pure_bind, map_eq_pure_bind]
    refine (binary_mirrors follows forest fields ordered).bind fun id t b' forest' => ?_
    exact .pure ⟨some (id, t), rfl, rfl, forest'⟩
  | unary =>
    refine (operator_mirrors _).bind ?_
    rintro op _ b' ⟨rfl, rfl⟩
    cases op with
    | primitive op =>
      refine required_bind follows forest fun operand forest₁ => ?_
      exact put_mirrors (.unary op operand) forest₁ ordered
    | _ => exact .throw trivial
  | void => exact put_mirrors .void forest ordered
  | control kind => exact put_mirrors (.control kind) forest ordered
  | classDef =>
    refine required_bind follows forest fun locator forest₁ => ?_
    refine optional_bind follows forest₁ fun base forest₂ => ?_
    refine optional_bind follows forest₂ fun body forest₃ => ?_
    exact put_mirrors (.classDef locator base body _ (doc? fields)) forest₃ ordered
  | undef =>
    refine list_bind follows forest fun names forest₁ => ?_
    exact put_mirrors (.undef names) forest₁ ordered
  | hash =>
    refine (pairs_mirrors follows forest fields).bind ?_
    rintro _ ts b₁ ⟨ks, vs, rfl, keys, values, same, forest₁⟩
    rw [keys, values]
    exact put_mirrors (.dict ks vs) forest₁ ordered rfl same
  | rescue =>
    refine list_bind follows forest fun exceptions forest₁ => ?_
    refine optional_bind follows forest₁ fun binder forest₂ => ?_
    refine optional_bind follows forest₂ fun body forest₃ => ?_
    refine optional_bind follows forest₃ fun orelse forest₄ => ?_
    exact put_mirrors (.handler exceptions binder body orelse) forest₄ ordered
  | each =>
    refine required_bind follows forest fun target forest₁ => ?_
    refine required_bind follows forest₁ fun iter forest₂ => ?_
    refine optional_bind follows forest₂ fun body forest₃ => ?_
    exact put_mirrors (.each target iter body) forest₃ ordered
  | branch =>
    refine required_bind follows forest fun test forest₁ => ?_
    refine optional_bind follows forest₁ fun body forest₂ => ?_
    refine optional_bind follows forest₂ fun orelse forest₃ => ?_
    exact put_mirrors (.branch test body orelse) forest₃ ordered
  | loop =>
    refine required_bind follows forest fun test forest₁ => ?_
    refine optional_bind follows forest₁ fun body forest₂ => ?_
    exact put_mirrors (.loop test body) forest₂ ordered
  | keyword =>
    refine optional_bind follows forest fun value forest₁ => ?_
    exact put_mirrors (.keyword (text fields "arg") value) forest₁ ordered
  | array =>
    refine list_bind follows forest fun elts forest₁ => ?_
    exact put_mirrors (.array elts) forest₁ ordered
  | args =>
    have whole (key : String) :
        Mirrors b (do some <$> push (.array (← list visit fields key)) (spanOf fields))
        (do pure (some (.node (.array (← Tree.list read fields key)) (spanOf fields)))) (Adds roots) :=
      list_bind follows forest fun elts forest₁ => put_mirrors (.array elts) forest₁ ordered
    dsimp only [build]
    cases fields.lookup "positional" with
    | none => exact whole "star"
    | some v =>
      cases v with
      | array items => exact whole "positional"
      | _ => exact whole "star"
  | range =>
    refine optional_bind follows forest fun low forest₁ => ?_
    refine optional_bind follows forest₁ fun high forest₂ => ?_
    rw [Option.toList_map, Option.toList_map, Option.toList_map, Option.toList_map,
      ← List.map_append, ← List.map_append]
    exact put_mirrors (.array (low.toList ++ high.toList)) forest₂ ordered
  | star =>
    refine required_bind follows forest fun value forest₁ => ?_
    exact put_mirrors (.starred value) forest₁ ordered
  | arg => exact put_mirrors (.name (text fields "arg") .plain) forest ordered
  | ret =>
    refine optional_bind follows forest fun value forest₁ => ?_
    exact put_mirrors (.ret value) forest₁ ordered
  | yield =>
    refine optional_bind follows forest fun value forest₁ => ?_
    exact put_mirrors (.yield value) forest₁ ordered
  | string => exact put_mirrors (.str (text fields "id")) forest ordered
  | embedded =>
    refine optional_bind follows forest fun value forest₁ => ?_
    exact put_mirrors (.strEmbed value) forest₁ ordered
  | regexp =>
    refine optional_bind follows forest fun pattern forest₁ => ?_
    refine optional_bind follows forest₁ fun stop forest₂ => ?_
    exact put_mirrors (.regexp pattern stop) forest₂ ordered
  | subscript => exact subscript_mirrors follows forest fields ordered
  | guarded =>
    refine optional_bind follows forest fun body forest₁ => ?_
    refine optional_bind follows forest₁ fun rescue forest₂ => ?_
    refine optional_bind follows forest₂ fun orelse forest₃ => ?_
    refine optional_bind follows forest₃ fun ensure forest₄ => ?_
    exact put_mirrors (.guarded body rescue orelse ensure) forest₄ ordered
  | assign =>
    refine required_bind follows forest fun target forest₁ => ?_
    refine required_bind follows forest₁ fun value forest₂ => ?_
    exact put_mirrors (.assign target value) forest₂ ordered
  | name kind => exact put_mirrors (.name (text fields "id") kind) forest ordered
  | symbol => exact put_mirrors (.symbol (text fields "id")) forest ordered
  | int => exact put_mirrors (.int (text fields "value")) forest ordered
  | float => exact put_mirrors (.float (text fields "value")) forest ordered

theorem convertWith_follows (follows : Follows visit read) :
    Follows (convertWith visit) (Tree.ofValue read) := by
  intro v b roots forest
  have nothing : Mirrors b (pure none) (pure none) (Adds roots) :=
    .pure ⟨none, rfl, rfl, by simpa using forest⟩
  cases v with
  | object fields =>
    cases fields with
    | nil => exact nothing
    | cons field rest =>
      dsimp only [convertWith, Tree.ofValue]
      rw [Tree.type?_eq, Tree.form?_eq]
      cases typeOf? (field :: rest) with
      | none => exact .throw trivial
      | some type =>
        dsimp only
        cases Form.ofName? type with
        | none => exact .throw trivial
        | some form => exact build_mirrors follows forest type (field :: rest) form
  | _ => exact nothing

end Parts

theorem convertWithin_follows (levels : Nat) : Follows (convertWithin levels) (Tree.within levels) := by
  induction levels with
  | zero =>
    intro v b roots forest
    exact .pure ⟨none, rfl, rfl, by simpa using forest⟩
  | succ levels ih => exact convertWith_follows ih

theorem root_mirrors (v : Json) :
    Mirrors {} (root v) (return (← Tree.ofDump v).getD .empty) fun id t b' => Forest b' [(id, t)] := by
  have start : Forest {} [] := by
    constructor <;> simp
  refine (convertWithin_follows v.height v {} [] start).bind ?_
  rintro _ _ b' ⟨p, rfl, rfl, forest⟩
  cases p with
  | none => exact push_mirrors (k := .block []) forest trivial (Span.new_ordered _ _ _ _)
  | some p => exact .pure forest

end Dump

namespace Ast

theorem forest_or_error (file : Path) (hash : UInt64) (v : Json) :
    (∃ (b : Builder) (root : NodeId) (found : Option Tree),
      ofDump file hash v = .ok (b.finish file hash root) ∧
      Tree.ofDump v = .ok found ∧ Forest b [(root, found.getD .empty)]) ∨
    ∃ e, ofDump file hash v = .error e ∧ Tree.ofDump v = .error e ∧ e.InDump := by
  have mirrors := Dump.root_mirrors v
  unfold ofDump
  unfold Dump.Mirrors at mirrors
  cases ran : (Dump.root v).run {} with
  | error e =>
    rw [ran] at mirrors
    cases read : Tree.ofDump v with
    | error e' =>
      rw [read] at mirrors
      obtain ⟨same, inDump⟩ := mirrors
      exact .inr ⟨e, rfl, by rw [same], inDump⟩
    | ok found =>
      rw [read] at mirrors
      exact mirrors.elim
  | ok result =>
    rw [ran] at mirrors
    cases read : Tree.ofDump v with
    | error e' =>
      rw [read] at mirrors
      exact mirrors.elim
    | ok found =>
      rw [read] at mirrors
      exact .inl ⟨result.2, result.1, found, rfl, rfl, mirrors⟩

def tree? (a : Ast) : Option Tree := Tree.ofNode a.nodes a.root

/-- Reading into an arena gives what reading into a plain tree gives: the same error, or an arena
that unfolds to the tree, with an empty block for a dump that stands for nothing. What a dump stands
for is given by recursion on its parts. -/
theorem ofDump_unfolds (file : Path) (hash : UInt64) (v : Json) :
    (ofDump file hash v).map (fun a => (a.file, a.hash, a.tree?)) =
      (Tree.ofDump v).map (fun found => (file, hash, some (found.getD .empty))) ∧
    Tree.ofDump v = Tree.ofValue Tree.ofDump v := by
  refine ⟨?_, Tree.ofDump_eq v⟩
  rcases forest_or_error file hash v with ⟨b, root, found, read, plain, forest⟩ | ⟨e, read, plain, -⟩
  · have unfolds : Tree.ofNode b.nodes root = some (found.getD .empty) :=
    forest.unfolds _ (List.mem_singleton_self _)
    rw [read, plain]
    simp only [Except.map, tree?, Builder.finish, unfolds]
  · rw [read, plain]
    rfl

/-- What is read from a dump is a well-formed tree, and no node is ever given a second parent on the
way, whether or not the dump can be read to its end. -/
theorem wellFormed_ofDump (file : Path) (hash : UInt64) (v : Json) :
    match ofDump file hash v with
    | .ok a => a.WellFormed
    | .error e => ∀ child, e ≠ .owned child := by
  rcases forest_or_error file hash v with ⟨b, root, found, read, -, forest⟩ | ⟨e, read, -, inDump⟩
  · rw [read]
    exact forest.wellFormed file hash
  · rw [read]
    exact inDump.ne_owned

end Ast

end RubyInfer
