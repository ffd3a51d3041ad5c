import RubyInfer.Syntax.Kind

/-!
# Kinds with their children replaced

`Kind.map` replaces the children of a kind at once. Two passes over the children of one kind that
agree child by child give the two sides of one kind of pairs (`along_mapM`), whatever the first pass
does to its state on the way.
-/

namespace RubyInfer

variable {α β γ σ : Type}

def Params.map (f : α → β) (p : Params α) : Params β :=
  ⟨p.positional.map f, p.defaults.map f, p.rest.map f, p.restKw.map f, p.afterRest.map f, p.blockArg.map f⟩

theorem Params.children_map (f : α → β) (p : Params α) : (p.map f).children = p.children.map f := by
  simp [Params.map, Params.children, Option.toList_map]

namespace Kind

def map (f : α → β) : Kind α → Kind β
  | .block stmts => .block (stmts.map f)
  | .moduleDef locator body doc => .moduleDef (f locator) (body.map f) doc
  | .classDef locator base body isStatic doc => .classDef (f locator) (base.map f) (body.map f) isStatic doc
  | .function locator params body isLambda doc =>
    .function (locator.map f) (params.map f) (body.map f) isLambda doc
  | .call func args keywords star blockArg =>
    .call (f func) (args.map f) (keywords.map f) (star.map f) (blockArg.map f)
  | .member target attr => .member (f target) (f attr)
  | .binary op left right => .binary op (f left) (f right)
  | .unary op operand => .unary op (f operand)
  | .assign target value => .assign (f target) (f value)
  | .strEmbed value => .strEmbed (value.map f)
  | .regexp pattern stop => .regexp (pattern.map f) (stop.map f)
  | .array elts => .array (elts.map f)
  | .dict keys values => .dict (keys.map f) (values.map f)
  | .starred value => .starred (f value)
  | .keyword arg value => .keyword arg (value.map f)
  | .branch test body orelse => .branch (f test) (body.map f) (orelse.map f)
  | .loop test body => .loop (f test) (body.map f)
  | .each target iter body => .each (f target) (f iter) (body.map f)
  | .guarded body rescue orelse ensure => .guarded (body.map f) (rescue.map f) (orelse.map f) (ensure.map f)
  | .handler exceptions binder body orelse =>
    .handler (exceptions.map f) (binder.map f) (body.map f) (orelse.map f)
  | .ret value => .ret (value.map f)
  | .yield value => .yield (value.map f)
  | .subscript value part => .subscript (f value) (part.map f)
  | .index value => .index (f value)
  | .slice lower upper => .slice (lower.map f) (upper.map f)
  | .undef targets => .undef (targets.map f)
  | .name id kind => .name id kind
  | .symbol id => .symbol id
  | .str value => .str value
  | .int text => .int text
  | .float text => .float text
  | .control kind => .control kind
  | .void => .void

def Paired : Kind α → Prop
  | .dict keys values => keys.length = values.length
  | _ => True

def parts : Kind α → List α
  | .dict keys values => keys ++ values
  | kind => kind.children

theorem mem_interleave {keys values : List α} (same : keys.length = values.length) {c : α}
    (mem : c ∈ keys ++ values) :
    c ∈ interleave keys values := by
  induction keys generalizing values with
  | nil =>
    cases values with
    | nil => exact mem
    | cons v values => cases same
  | cons k keys ih =>
    cases values with
    | nil => cases same
    | cons v values =>
      have rest := @ih values (by simpa using same)
      simp only [List.cons_append, List.mem_cons, List.mem_append] at mem rest
      simp only [interleave, List.mem_cons]
      grind

theorem mem_children_of_paired {k : Kind α} (paired : k.Paired) {c : α} (mem : c ∈ k.parts) :
    c ∈ k.children := by
  cases k with
  | dict keys values => exact mem_interleave paired mem
  | _ => exact mem

theorem interleave_subset (keys values : List α) : interleave keys values ⊆ keys ++ values := by
  fun_induction interleave keys values with
  | case1 k ks v vs ih =>
    intro c mem
    have rest := @ih c
    simp only [List.mem_cons, List.mem_append, List.cons_append] at mem rest ⊢
    grind
  | case2 => simp

theorem children_subset (k : Kind α) : k.children ⊆ k.parts := by
  cases k with
  | dict keys values => exact interleave_subset keys values
  | _ => exact List.Subset.refl _

theorem paired_eq {k : Kind α} (paired : k.Paired) : k.paired = k := by
  cases k with
  | dict keys values =>
    have same : keys.length = values.length := paired
    rw [Kind.paired, List.take_of_length_le (by omega), List.take_of_length_le (by omega)]
  | _ => rfl

theorem Paired.map {k : Kind α} (paired : k.Paired) (f : α → β) : (k.map f).Paired := by
  cases k with
  | dict keys values =>
    have same : keys.length = values.length := paired
    simp [Kind.map, Paired, same]
  | _ => trivial

theorem interleave_map (f : α → β) (keys values : List α) :
    interleave (keys.map f) (values.map f) = (interleave keys values).map f := by
  induction keys generalizing values with
  | nil => rfl
  | cons k keys ih =>
    cases values with
    | nil => rfl
    | cons v values => simp [interleave, ih]

theorem children_map (f : α → β) (k : Kind α) : (k.map f).children = k.children.map f := by
  cases k <;> simp [Kind.map, Kind.children, interleave_map, Params.children_map, Option.toList_map]

/-! ## A pass that finds the right side of every pair -/

section Sides

variable {h : α → Option β}

theorem mapM_list_fst {ps : List (α × β)} (each : ∀ a b, (a, b) ∈ ps → h a = some b) :
    (ps.map Prod.fst).mapM h = some (ps.map Prod.snd) := by
  induction ps with
  | nil => rfl
  | cons p ps ih =>
    have head : h p.1 = some p.2 := each p.1 p.2 (by simp)
    have tail := ih fun a b mem => each a b (by simp [mem])
    simp [List.mapM_cons, head, tail]

theorem mapM_option_fst {o : Option (α × β)} (each : ∀ a b, o = some (a, b) → h a = some b) :
    (o.map Prod.fst).mapM h = some (o.map Prod.snd) := by
  cases o with
  | none => rfl
  | some p =>
    have found : h p.1 = some p.2 := each p.1 p.2 rfl
    simp [found]

theorem mapPairsM_fst {ks vs : List (α × β)} (same : ks.length = vs.length)
    (each : ∀ a b, (a, b) ∈ interleave ks vs → h a = some b) :
    mapPairsM h (ks.map Prod.fst) (vs.map Prod.fst) = some (ks.map Prod.snd, vs.map Prod.snd) := by
  induction ks generalizing vs with
  | nil =>
    cases vs with
    | nil => rfl
    | cons v vs => cases same
  | cons k ks ih =>
    cases vs with
    | nil => cases same
    | cons v vs =>
      have key : h k.1 = some k.2 := each k.1 k.2 (by simp [interleave])
      have value : h v.1 = some v.2 := each v.1 v.2 (by simp [interleave])
      have rest := ih (by simpa using same) fun a b mem => each a b (by simp [interleave, mem])
      simp [mapPairsM, key, value, rest]

theorem mapM_params_fst {p : Params (α × β)} (each : ∀ a b, (a, b) ∈ p.children → h a = some b) :
    (p.map Prod.fst).mapM h = some (p.map Prod.snd) := by
  simp only [Params.children, List.mem_append, Option.mem_toList] at each
  simp (disch := grind) only [Params.mapM, Params.map, mapM_list_fst, mapM_option_fst,
    Option.pure_def, Option.bind_eq_bind,
    Option.bind_some]

theorem mapM_map_fst {k : Kind (α × β)} (paired : k.Paired)
    (each : ∀ a b, (a, b) ∈ k.children → h a = some b) :
    (k.map Prod.fst).mapM h = some (k.map Prod.snd) := by
  have pair : ∀ p ∈ k.children, h p.1 = some p.2 := fun p mem => each p.1 p.2 mem
  cases k
  case dict ks vs =>
    have rest := mapPairsM_fst paired each
    simp only [Kind.map, Kind.mapM, rest, Option.pure_def, Option.bind_eq_bind, Option.bind_some]
  case function locator params body isLambda doc =>
    have inner := mapM_params_fst (p := params) fun a b mem => each a b (by simp [Kind.children, mem])
    simp only [Kind.children, List.mem_append, Option.mem_toList] at each
    simp (disch := grind) only [Kind.map, Kind.mapM, inner, mapM_option_fst, Option.pure_def,
      Option.bind_eq_bind, Option.bind_some]
  all_goals
    simp only [Kind.children, List.mem_append, List.mem_cons, Option.mem_toList, List.not_mem_nil]
      at each pair
    simp (disch := grind) only [Kind.map, Kind.mapM, mapM_list_fst, mapM_option_fst, pair,
      Option.pure_def, Option.bind_eq_bind,
      Option.bind_some]

end Sides

end Kind

/-! ## Two passes side by side -/

/-- From `s`, the results of both passes stand in `post` whenever the second one has a result. -/
def Along (s : σ) (x : StateM σ α) (y : Option β) (post : α → β → σ → Prop) : Prop :=
  ∀ t, y = some t → post (x.run s).1 t (x.run s).2

namespace Along

variable {δ η : Type}

theorem pure {s : σ} {a : α} {t : β} {post : α → β → σ → Prop} (holds : post a t s) :
    Along s (pure a) (pure t) post := by
  intro t' found
  cases found
  exact holds

theorem bind {s : σ} {x : StateM σ α} {y : Option β} {f : α → StateM σ δ} {g : β → Option η}
    {mid : α → β → σ → Prop} {post : δ → η → σ → Prop} (first : Along s x y mid)
    (next : ∀ a t s', mid a t s' → Along s' (f a) (g t) post) : Along s (x >>= f) (y >>= g) post := by
  intro u found
  obtain ⟨t, found, rest⟩ := Option.bind_eq_some_iff.1 found
  exact next _ t _ (first t found) u rest

end Along

section Passes

variable {f : α → StateM σ β} {g : α → Option γ} {I : σ → List (β × γ) → Prop} {s : σ}
    {acc : List (β × γ)} {δ η : Type}
  {post : δ → η → σ → Prop}

def InStep (f : α → StateM σ β) (g : α → Option γ) (I : σ → List (β × γ) → Prop) : Prop :=
  ∀ a s acc, I s acc → Along s (f a) (g a) fun b t s' => I s' (acc ++ [(b, t)])

namespace InStep

variable (each : InStep f g I)
include each

theorem one {F : β → StateM σ δ} {G : γ → Option η} (a : α) (start : I s acc)
    (next : ∀ (p : β × γ) (s' : σ), I s' (acc ++ [p]) → Along s' (F p.1) (G p.2) post) :
    Along s (f a >>= F) (g a >>= G) post :=
  (each a s acc start).bind fun b t s' h => next (b, t) s' h

theorem many {F : List β → StateM σ δ} {G : List γ → Option η} (xs : List α) (start : I s acc)
    (next : ∀ (ps : List (β × γ)) (s' : σ), I s' (acc ++ ps) →
      Along s' (F (ps.map Prod.fst)) (G (ps.map Prod.snd)) post) :
    Along s (xs.mapM f >>= F) (xs.mapM g >>= G) post := by
  induction xs generalizing s acc F G with
  | nil => exact next [] s (by simpa using start)
  | cons x xs ih =>
    simp only [List.mapM_cons, bind_assoc, pure_bind]
    refine each.one x start fun p s₁ h₁ => ih h₁ fun ps s₂ h => ?_
    exact next (p :: ps) s₂ (by simpa using h)

theorem opt {F : Option β → StateM σ δ} {G : Option γ → Option η} (o : Option α) (start : I s acc)
    (next : ∀ (p : Option (β × γ)) (s' : σ), I s' (acc ++ p.toList) →
      Along s' (F (p.map Prod.fst)) (G (p.map Prod.snd)) post) :
    Along s (o.mapM f >>= F) (o.mapM g >>= G) post := by
  cases o with
  | none => exact next none s (by simpa using start)
  | some a =>
    simp only [Option.mapM_some, map_eq_pure_bind, bind_assoc, pure_bind]
    exact each.one a start fun p s' h => next (some p) s' h

theorem pairs (keys values : List α) (start : I s acc) :
    Along s (Kind.mapPairsM f keys values) (Kind.mapPairsM g keys values) fun b t s' => ∃ ks vs :
      List (β × γ),
      b = (ks.map Prod.fst, vs.map Prod.fst) ∧ t = (ks.map Prod.snd, vs.map Prod.snd) ∧
        ks.length = vs.length ∧
      I s' (acc ++ Kind.interleave ks vs) := by
  induction keys generalizing values s acc with
  | nil => exact .pure ⟨[], [], rfl, rfl, rfl, by simpa [Kind.interleave] using start⟩
  | cons k keys ih =>
    cases values with
    | nil => exact .pure ⟨[], [], rfl, rfl, rfl, by simpa [Kind.interleave] using start⟩
    | cons v values =>
      refine each.one k start fun p s₁ h₁ => each.one v h₁ fun q s₂ h₂ => (ih values h₂).bind ?_
      rintro _ _ s₃ ⟨ks, vs, rfl, rfl, same, h⟩
      exact .pure ⟨p :: ks, q :: vs, rfl, rfl, by simp [same], by simpa [Kind.interleave] using h⟩

theorem params (p : Params α) (start : I s acc) :
    Along s (p.mapM f) (p.mapM g) fun b t s' =>
      ∃ q : Params (β × γ), b = q.map Prod.fst ∧ t = q.map Prod.snd ∧ I s' (acc ++ q.children) := by
  refine each.many p.positional start fun positional s₁ h₁ => each.many p.defaults h₁ fun defaults s₂ h₂ => ?_
  refine each.opt p.rest h₂ fun rest s₃ h₃ => each.opt p.restKw h₃ fun restKw s₄ h₄ => ?_
  refine each.many p.afterRest h₄ fun afterRest s₅ h₅ => each.opt p.blockArg h₅ fun blockArg s₆ h => ?_
  exact .pure ⟨⟨positional, defaults, rest, restKw, afterRest, blockArg⟩, rfl,
    rfl, by simpa [Params.children] using h⟩

end InStep

theorem along_mapM (each : InStep f g I) (k : Kind α) (start : I s acc) :
    Along s (k.mapM f) (k.mapM g) fun b t s' =>
      ∃ q : Kind (β × γ), b = q.map Prod.fst ∧ t = q.map Prod.snd ∧ q.Paired ∧ I s' (acc ++ q.children) := by
  have done {s : σ} {all : List (β × γ)} (q : Kind (β × γ)) (h : I s all)
      (same : all = acc ++ q.children := by simp [Kind.children])
      (paired : q.Paired := by trivial) :
      Along s (pure (q.map Prod.fst)) (pure (q.map Prod.snd)) fun b t s' =>
        ∃ q : Kind (β × γ), b = q.map Prod.fst ∧ t = q.map Prod.snd ∧ q.Paired ∧ I s' (acc ++ q.children) :=
    .pure ⟨q, rfl, rfl, paired, same ▸ h⟩
  cases k with
  | block stmts =>
    refine each.many stmts start fun ps s₁ h => ?_
    exact done (.block ps) h
  | moduleDef locator body doc =>
    refine each.one locator start fun p s₁ h₁ => each.opt body h₁ fun q s₂ h => ?_
    exact done (.moduleDef p q doc) h
  | classDef locator base body isStatic doc =>
    refine each.one locator start fun p s₁ h₁ => each.opt base h₁ fun q s₂ h₂ =>
      each.opt body h₂ fun r s₃ h => ?_
    exact done (.classDef p q r isStatic doc) h
  | function locator params body isLambda doc =>
    refine each.opt locator start fun p s₁ h₁ => (each.params params h₁).bind ?_
    rintro _ _ s₂ ⟨q, rfl, rfl, h₂⟩
    refine each.opt body h₂ fun r s₃ h => ?_
    exact done (.function p q r isLambda doc) h
  | call func args keywords star blockArg =>
    refine each.one func start fun p s₁ h₁ => each.many args h₁ fun ps s₂ h₂ =>
      each.many keywords h₂ fun qs s₃ h₃ => ?_
    refine each.opt star h₃ fun q s₄ h₄ => each.opt blockArg h₄ fun r s₅ h => ?_
    exact done (.call p ps qs q r) h
  | member target attr =>
    refine each.one target start fun p s₁ h₁ => each.one attr h₁ fun q s₂ h => ?_
    exact done (.member p q) h
  | binary op left right =>
    refine each.one left start fun p s₁ h₁ => each.one right h₁ fun q s₂ h => ?_
    exact done (.binary op p q) h
  | unary op operand =>
    refine each.one operand start fun p s₁ h => ?_
    exact done (.unary op p) h
  | assign target value =>
    refine each.one target start fun p s₁ h₁ => each.one value h₁ fun q s₂ h => ?_
    exact done (.assign p q) h
  | strEmbed value =>
    refine each.opt value start fun p s₁ h => ?_
    exact done (.strEmbed p) h
  | regexp pattern stop =>
    refine each.opt pattern start fun p s₁ h₁ => each.opt stop h₁ fun q s₂ h => ?_
    exact done (.regexp p q) h
  | array elts =>
    refine each.many elts start fun ps s₁ h => ?_
    exact done (.array ps) h
  | dict keys values =>
    refine (each.pairs keys values start).bind ?_
    rintro _ _ s₁ ⟨ks, vs, rfl, rfl, same, h⟩
    exact done (.dict ks vs) h rfl same
  | starred value =>
    refine each.one value start fun p s₁ h => ?_
    exact done (.starred p) h
  | keyword arg value =>
    refine each.opt value start fun p s₁ h => ?_
    exact done (.keyword arg p) h
  | branch test body orelse =>
    refine each.one test start fun p s₁ h₁ => each.opt body h₁ fun q s₂ h₂ =>
      each.opt orelse h₂ fun r s₃ h => ?_
    exact done (.branch p q r) h
  | loop test body =>
    refine each.one test start fun p s₁ h₁ => each.opt body h₁ fun q s₂ h => ?_
    exact done (.loop p q) h
  | each target iter body =>
    refine each.one target start fun p s₁ h₁ => each.one iter h₁ fun q s₂ h₂ =>
      each.opt body h₂ fun r s₃ h => ?_
    exact done (.each p q r) h
  | guarded body rescue orelse ensure =>
    refine each.opt body start fun p s₁ h₁ => each.opt rescue h₁ fun q s₂ h₂ =>
      each.opt orelse h₂ fun r s₃ h₃ => ?_
    refine each.opt ensure h₃ fun u s₄ h => ?_
    exact done (.guarded p q r u) h
  | handler exceptions binder body orelse =>
    refine each.many exceptions start fun ps s₁ h₁ => each.opt binder h₁ fun q s₂ h₂ =>
      each.opt body h₂ fun r s₃ h₃ => ?_
    refine each.opt orelse h₃ fun u s₄ h => ?_
    exact done (.handler ps q r u) h
  | ret value =>
    refine each.opt value start fun p s₁ h => ?_
    exact done (.ret p) h
  | yield value =>
    refine each.opt value start fun p s₁ h => ?_
    exact done (.yield p) h
  | subscript value part =>
    refine each.one value start fun p s₁ h₁ => each.opt part h₁ fun q s₂ h => ?_
    exact done (.subscript p q) h
  | index value =>
    refine each.one value start fun p s₁ h => ?_
    exact done (.index p) h
  | slice lower upper =>
    refine each.opt lower start fun p s₁ h₁ => each.opt upper h₁ fun q s₂ h => ?_
    exact done (.slice p q) h
  | undef targets =>
    refine each.many targets start fun ps s₁ h => ?_
    exact done (.undef ps) h
  | name id kind => exact done (.name id kind) start
  | symbol id => exact done (.symbol id) start
  | str value => exact done (.str value) start
  | int text => exact done (.int text) start
  | float text => exact done (.float text) start
  | control kind => exact done (.control kind) start
  | void => exact done .void start

end Passes

end RubyInfer
