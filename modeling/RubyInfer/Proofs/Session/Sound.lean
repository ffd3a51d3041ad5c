import RubyInfer.Proofs.Session.Runs
import RubyInfer.Proofs.Store.Registry

/-!
# Sound sessions

What inference reads from a session has to be as good as what it writes: a session is sound when all
types in it have the property that the regime asks for, and all scopes that its records name are
there. Runs keep sessions sound, they never drop a scope, and a tree keeps its number.
-/

namespace RubyInfer

/-! ## Trees -/

namespace Cache

theorem prefix_trees_addTree (c : Cache) (file : Path) (tree : Ast) :
    c.trees.toList <+: (c.addTree file tree).2.trees.toList := by
  simp [addTree, remember]

theorem prefix_trees_parse (c : Cache) (file : Path) (files : FileTree) :
    c.trees.toList <+: (c.parse file files).2.1.trees.toList := by
  unfold parse
  dsimp only
  split
  · exact List.prefix_rfl
  · exact prefix_trees_addTree { c with parses := c.parses + 1 } ..

theorem prefix_trees_get (c : Cache) (file : Path) (files : FileTree) :
    c.trees.toList <+: (c.get file files).2.1.trees.toList := by
  unfold get
  split
  · exact List.prefix_rfl
  · split
    · exact List.prefix_rfl
    · split
      · exact prefix_trees_addTree { c with diskHits := c.diskHits + 1 } ..
      · exact prefix_trees_parse ..

theorem prefix_trees_prewarm (c : Cache) (paths : List Path) (files : FileTree) :
    c.trees.toList <+: (c.prewarm paths files).1.trees.toList := by
  unfold prewarm
  generalize paths.filter (fun p => !c.contains p) = missing
  induction missing generalizing c files with
  | nil => exact List.prefix_rfl
  | cons p missing ih => exact (c.prefix_trees_get p files).trans (ih ..)

end Cache

namespace Session

variable {node : NodeRef} {id : String}

theorem tree_retained {s t : Session} (trees : s.cache.trees.toList <+: t.cache.trees.toList)
    (rooted : node.tree < s.cache.trees.size) :
    t.tree node = s.tree node := by
  obtain ⟨more, grown⟩ := trees
  have there : t.cache.trees[node.tree]? = s.cache.trees[node.tree]? := by
    rw [← Array.getElem?_toList, ← Array.getElem?_toList, ← grown,
      List.getElem?_append_left (by simpa using rooted)]
  simp [tree, there]

theorem kind_of_tree {s : Session} {tree : Nat} {a : Ast} (held : s.cache.trees[tree]? = some a)
    (file : Path) (id : NodeId) :
    s.kind ⟨tree, file, id⟩ = a.kind id := by
  simp [kind, Session.tree, held]

theorem lt_size_of_kind {s : Session} (here : s.kind node ≠ .void) : node.tree < s.cache.trees.size := by
  refine Decidable.byContradiction fun missing => here ?_
  have absent : s.cache.trees[node.tree]? = none := Array.getElem?_eq_none (Nat.le_of_not_lt missing)
  unfold kind tree
  rw [absent]
  rfl

theorem lt_size_of_name {s : Session} (named : s.nameOf? node = some id) :
    node.tree < s.cache.trees.size := by
  refine lt_size_of_kind fun empty => ?_
  replace empty : (s.tree node).kind node.id = .void := empty
  simp [nameOf?, Ast.nameId?, empty] at named

theorem nameOf?_retained {s t : Session} (trees : s.cache.trees.toList <+: t.cache.trees.toList)
    (named : s.nameOf? node = some id) :
    t.nameOf? node = some id ∧ t.span node = s.span node := by
  have same := tree_retained trees (lt_size_of_name named)
  unfold nameOf? span at *
  rw [same]
  exact ⟨named, rfl⟩

theorem kind_retained {s t : Session} (trees : s.cache.trees.toList <+: t.cache.trees.toList)
    (here : s.kind node ≠ .void) :
    t.kind node = s.kind node := by
  unfold kind
  rw [tree_retained trees (lt_size_of_kind here)]

theorem IsFunction.retained {s t : Session} (written : s.IsFunction node)
    (trees : s.cache.trees.toList <+: t.cache.trees.toList) :
    t.IsFunction node := by
  obtain ⟨locator, params, body, isLambda, doc, defined⟩ := written
  refine ⟨locator, params, body, isLambda, doc, (kind_retained trees ?_).trans defined⟩
  rw [defined]
  simp

/-! ## What stays -/

structure Retains (s t : Session) : Prop where
  options : t.options = s.options
  scopes : s.scopes.size ≤ t.scopes.size
  trees : s.cache.trees.toList <+: t.cache.trees.toList

theorem Retains.refl (s : Session) : Retains s s := ⟨rfl, Nat.le_refl _, List.prefix_rfl⟩

theorem Retains.trans {s t u : Session} (first : Retains s t) (second : Retains t u) : Retains s u :=
  ⟨second.options.trans first.options, Nat.le_trans first.scopes second.scopes,
    first.trees.trans second.trees⟩

variable {R : Regime} {s t : Session}

theorem Update.retains (step : Update R s t) : Retains s t := by
  have same : Retains s s := .refl s
  cases step with
  | bind => exact ⟨rfl, Nat.le_of_eq (Scopes.size_enter ..).symm, same.trees⟩
  | enter => exact ⟨rfl, Nat.le_of_eq (Scopes.size_enter ..).symm, same.trees⟩
  | newModule => exact ⟨rfl, by simp, same.trees⟩
  | newClass =>
    refine ⟨rfl, ?_, same.trees⟩
    simp only [Scopes.size_push]
    omega
  | newFrame => exact ⟨rfl, by simp, same.trees⟩
  | fetch file => exact ⟨rfl, same.scopes, s.cache.prefix_trees_get file s.files⟩
  | _ => exact ⟨rfl, same.scopes, same.trees⟩

theorem Change.retains (change : Change R s t) : Retains s t := by
  cases change with
  | update step => exact step.retains
  | _ => exact ⟨rfl, Nat.le_refl _, List.prefix_rfl⟩

theorem Runs.retains (run : Runs R s t) : Retains s t := by
  exact run.lift Retains.refl Retains.trans Change.retains

theorem HasScope.grown {scope : ScopeId} (there : s.HasScope R scope)
    (grown : s.scopes.size ≤ t.scopes.size) :
    t.HasScope R scope :=
  fun asked => Nat.lt_of_lt_of_le (there asked) grown

theorem HasScope.after {scope : ScopeId} (there : s.HasScope R scope) (run : Runs R s t) :
    t.HasScope R scope :=
  there.grown run.retains.scopes

theorem HasTree.after (rooted : s.HasTree R node) (run : Runs R s t) : t.HasTree R node :=
  fun asked => Nat.lt_of_lt_of_le (rooted asked) (by simpa using run.retains.trees.length_le)

theorem hasTree_of_kind (here : s.kind node ≠ .void) : s.HasTree R node := fun _ => lt_size_of_kind here

theorem hasTree_of_name (named : s.nameOf? node = some id) : s.HasTree R node :=
  fun _ => lt_size_of_name named

/-! ## Sound sessions -/

structure Sound (R : Regime) (s : Session) : Prop where
  bindings {id : BindingId} {b : Binding} : s.registry.get? id = some b → R.ty b.ty
  functions {id : FunctionId} {f : FunctionRecord} :
    s.functions[id]? = some f → R.ty f.ret ∧ ∀ frame, f.frame = some frame → s.HasScope R frame
  classes {id : ClassId} {c : ClassRecord} : s.classes[id]? = some c → s.HasScope R c.scope ∧
      s.HasScope R c.instances
  modules {id : ModuleId} {m : ModuleRecord} : s.modules[id]? = some m → s.HasScope R m.scope
  returns {ty : Ty} : ty ∈ s.returns → R.ty ty
  keys {key : CallKey} : key ∈ s.callStack → R.ty key.receiver ∧ ∀ ty ∈ key.args, R.ty ty
  global : s.HasScope R Scopes.global

theorem Sound.of_free (free : ∀ ty, R.ty ty) (anywhere : ¬R.inScope) : s.Sound R where
  bindings _ := free _
  functions _ := ⟨free _, fun _ _ asked => absurd asked anywhere⟩
  classes _ := ⟨fun asked => absurd asked anywhere, fun asked => absurd asked anywhere⟩
  modules _ asked := absurd asked anywhere
  returns _ := free _
  keys _ := ⟨free _, fun _ _ => free _⟩
  global asked := absurd asked anywhere

theorem Sound.transfer (sound : s.Sound R) (grown : s.scopes.size ≤ t.scopes.size)
    (bindings : ∀ {id : BindingId} {b : Binding}, t.registry.get? id = some b → R.ty b.ty)
    (functions : t.functions = s.functions := by rfl) (classes : t.classes = s.classes := by rfl)
    (modules : t.modules = s.modules := by rfl) (returns : t.returns = s.returns := by rfl)
    (callStack : t.callStack = s.callStack := by rfl) : t.Sound R where
  bindings := bindings
  functions here := by
    obtain ⟨typed, framed⟩ := sound.functions (functions ▸ here)
    exact ⟨typed, fun frame set => (framed frame set).grown grown⟩
  classes here := by
    obtain ⟨scope, instances⟩ := sound.classes (classes ▸ here)
    exact ⟨scope.grown grown, instances.grown grown⟩
  modules here := (sound.modules (modules ▸ here)).grown grown
  returns mem := sound.returns (returns ▸ mem)
  keys mem := sound.keys (callStack ▸ mem)
  global := sound.global.grown grown

theorem Sound.returned (sound : s.Sound R) : R.ty (s.returns.headD .unknown) := by
  cases current : s.returns with
  | nil => exact R.closed.unknown
  | cons acc rest => exact sound.returns (by rw [current]; exact List.mem_cons_self)

theorem getElem?_modify_eq_some {α : Type} {xs : Array α} {i j : Nat} {f : α → α} {b : α}
    (here : (xs.modify i f)[j]? = some b) :
    ∃ a, xs[j]? = some a ∧ (b = a ∨ b = f a) := by
  rw [Array.getElem?_modify] at here
  split at here
  · obtain ⟨a, there, rfl⟩ := Option.map_eq_some_iff.mp here
    exact ⟨a, there, .inr rfl⟩
  · exact ⟨b, here, .inl rfl⟩

theorem getElem?_push_eq_some {α : Type} {xs : Array α} {a b : α} {j : Nat}
    (here : (xs.push a)[j]? = some b) :
    xs[j]? = some b ∨ b = a := by
  rw [Array.getElem?_push] at here
  split at here
  · exact .inr (Option.some.inj here).symm
  · exact .inl here

theorem typed_modifyAll {r : Registry}
    (typed : ∀ {id : BindingId} {b : Binding}, r.get? id = some b → R.ty b.ty)
    {f : Binding → Binding} {same : ∀ b, (f b).definition = b.definition}
    (keeps : ∀ b, R.ty b.ty → R.ty (f b).ty) (ids : List BindingId) {id : BindingId} {b : Binding}
    (here : (ids.foldl (fun r id => r.modify id f same) r).get? id = some b) : R.ty b.ty := by
  rw [Registry.get?_modifyAll] at here
  obtain ⟨a, there, rfl⟩ := Option.map_eq_some_iff.mp here
  generalize ids.filter (· = id) = occurrences
  have start : R.ty a.ty := typed there
  clear there here
  induction occurrences generalizing a with
  | nil => exact start
  | cons _ rest ih => exact ih (f a) (keeps a start)

theorem typed_register {r : Registry}
    (typed : ∀ {id : BindingId} {b : Binding}, r.get? id = some b → R.ty b.ty)
    {new : Binding} (given : R.ty new.ty) {id : BindingId} {b : Binding}
    (here : (r.register new).2.get? id = some b) :
    R.ty b.ty := by
  obtain ⟨i, old, -, -, same⟩ | ⟨fresh, pushed⟩ := r.register_cases new
  · rw [same, Registry.get?_modify] at here
    obtain ⟨a, there, rfl⟩ := Option.map_eq_some_iff.mp here
    split
    · exact R.closed.either (typed there) given
    · exact typed there
  · rw [pushed, Registry.get?_push] at here
    split at here
    · cases here
      exact given
    · exact typed here

theorem Update.sound (step : Update R s t) (sound : s.Sound R) : t.Sound R := by
  have kept := step.retains
  cases step with
  | bind scope tier name node body kind ty inRange typed =>
    exact sound.transfer kept.scopes (typed_register sound.bindings typed)
  | refineAttributes ids ty typed =>
    refine sound.transfer kept.scopes (typed_modifyAll sound.bindings (fun b there => ?_) ids)
    unfold Binding.refineAttribute
    split
    · exact R.closed.join there typed
    · exact there
  | refer node ids held =>
    refine sound.transfer kept.scopes fun {id b} here => ?_
    replace here : (s.registry.putRef node ids).get? id = some b := here
    rw [Registry.get?_putRef] at here
    obtain ⟨a, there, rfl⟩ := Option.map_eq_some_iff.mp here
    split
    · rw [Binding.addRef_eq]
      exact (sound.bindings there :)
    · exact sound.bindings there
  | newModule name qname parent =>
    have frame := sound.transfer (t := { s with scopes := (s.scopes.push .moduleBody (some parent) qname).2 })
      kept.scopes sound.bindings
    refine { frame with modules := fun {id m} here => ?_ }
    obtain there | rfl := getElem?_push_eq_some here
    · exact (sound.modules there).grown kept.scopes
    · exact fun _ => by simp
  | newClass name qname parent =>
    have frame := sound.transfer
      (t := { s with
        scopes := ((s.scopes.push .classBody (some parent) qname).2.push .instances
          (some s.scopes.size) qname).2 })
      kept.scopes sound.bindings
    refine { frame with classes := fun {id c} here => ?_ }
    obtain there | rfl := getElem?_push_eq_some here
    · obtain ⟨scope, instances⟩ := sound.classes there
      exact ⟨scope.grown kept.scopes, instances.grown kept.scopes⟩
    · have more : s.scopes.size + 1 < ((s.scopes.push .classBody (some parent) qname).2.push
          .instances (some s.scopes.size) qname).2.size := by simp
      exact ⟨fun _ => Nat.lt_of_succ_lt more, fun _ => more⟩
  | setBase =>
    refine { sound with classes := fun {id c} here => ?_ }
    obtain ⟨c, there, rfl | rfl⟩ := getElem?_modify_eq_some here <;> exact (sound.classes there :)
  | mixIntoClass =>
    refine { sound with classes := fun {id c} here => ?_ }
    obtain ⟨c, there, rfl | rfl⟩ := getElem?_modify_eq_some here <;> exact (sound.classes there :)
  | mixIntoModule =>
    refine { sound with modules := fun {id m} here => ?_ }
    obtain ⟨m, there, rfl | rfl⟩ := getElem?_modify_eq_some here <;> exact (sound.modules there :)
  | newFunction =>
    refine { sound with functions := fun {id f} here => ?_ }
    obtain there | rfl := getElem?_push_eq_some here
    · exact sound.functions there
    · exact ⟨R.closed.unknown, fun _ unset => nomatch unset⟩
  | markCalled =>
    refine { sound with functions := fun {id f} here => ?_ }
    obtain ⟨f, there, rfl | rfl⟩ := getElem?_modify_eq_some here <;> exact (sound.functions there :)
  | newFrame id kind =>
    have frame := sound.transfer
      (t := { s with scopes := (s.scopes.push kind (some (s.function id).env) (s.function id).qname).2 })
      kept.scopes sound.bindings
    refine { frame with functions := fun {id f} here => ?_ }
    obtain ⟨f, there, rfl | rfl⟩ := getElem?_modify_eq_some here
    · exact frame.functions there
    · refine ⟨(sound.functions there).1, fun new set => ?_⟩
      cases set
      exact fun _ => by simp
  | addReturn acc ty rest current typed =>
    refine { sound with returns := fun {t} mem => ?_ }
    have before : ∀ t ∈ acc :: rest, R.ty t := fun t mem => sound.returns (current ▸ mem)
    obtain rfl | old := List.mem_cons.mp mem
    · exact R.closed.join (before acc List.mem_cons_self) typed
    · exact before t (List.mem_cons_of_mem _ old)
  | _ => exact sound.transfer kept.scopes sound.bindings

theorem Change.sound (change : Change R s t) (sound : s.Sound R) : t.Sound R := by
  have kept := change.retains
  cases change with
  | update step => exact step.sound sound
  | pushCall key receiver args =>
    refine { sound with
      functions := fun {id f} here => ?_, returns := fun {t} mem => ?_, keys := fun {k} mem => ?_ }
    · obtain ⟨f, there, rfl | rfl⟩ := getElem?_modify_eq_some here <;> exact (sound.functions there :)
    · obtain rfl | old := List.mem_cons.mp mem
      · exact R.closed.unknown
      · exact sound.returns old
    · obtain rfl | old := List.mem_cons.mp mem
      · exact ⟨receiver, args⟩
      · exact sound.keys old
  | popCall key result typed =>
    refine { sound with
      functions := fun {id f} here => ?_, returns := fun {t} mem => ?_, keys := fun {k} mem => ?_ }
    · obtain ⟨f, there, rfl | rfl⟩ := getElem?_modify_eq_some here
      · exact sound.functions there
      · obtain ⟨before, framed⟩ := sound.functions there
        exact ⟨R.closed.join before (R.closed.join typed sound.returned), framed⟩
    · exact sound.returns (List.mem_of_mem_tail mem)
    · exact sound.keys (List.mem_of_mem_erase mem)
  | _ => exact sound.transfer kept.scopes sound.bindings

theorem Runs.lift_sound {rel : Session → Session → Prop} (refl : ∀ a, rel a a)
    (trans : ∀ {a b c}, rel a b → rel b c → rel a c)
    (single : ∀ {a b}, Change R a b → a.Sound R → rel a b) (run : Runs R s t) (sound : s.Sound R) :
    t.Sound R ∧ rel s t :=
  @Runs.lift R s t (fun a b => a.Sound R → b.Sound R ∧ rel a b) (fun a sound => ⟨sound, refl a⟩)
    (fun first second sound => ⟨(second (first sound).1).1, trans (first sound).2 (second (first sound).1).2⟩)
    (fun change sound => ⟨change.sound sound, single change sound⟩) run sound

theorem Runs.sound (run : Runs R s t) (sound : s.Sound R) : t.Sound R := by
  exact run.keeps Change.sound sound

end Session

end RubyInfer
