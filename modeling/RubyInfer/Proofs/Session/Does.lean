import RubyInfer.Proofs.Session.Effects

/-!
# Computations that make runs

`Does` says of two computations that they do the same from a session, that this is a run, and what
its result is like. It has a rule for each way in which computations are put together. The parts of
inference make runs under the assumption that visits to other nodes do (`Follows`), and the same
runs for two visits that do the same. Here these parts are loading files, resolving names and
binding targets.
-/

namespace RubyInfer.Analysis

open Session

variable {R : Regime} {s t : Session} {α β : Type} {file : Path} {scope : ScopeId} {ty : Ty}
    {u : Session} {tree : Nat}

theorem run_get (f : Session → Analysis α) (s : Session) : (get >>= f).run s = (f s).run s := rfl

theorem run_modify (c : Session → Session) (f : PUnit → Analysis α) (s : Session) :
    (modify c >>= f).run s = (f ⟨⟩).run (c s) := rfl

theorem run_modifyGet (c : Session → β × Session) (f : β → Analysis α) (s : Session) :
    (modifyGet c >>= f).run s = (f (c s).1).run (c s).2 := rfl

theorem run_bind {x : Analysis α} {a : α} (first : x.run s = (a, u)) (f : α → Analysis β) :
    (x >>= f).run s = (f a).run u := by
  rw [StateT.run_bind, first]
  rfl

/-- From `s` both computations do the same: they make a run, and `post` holds of their result and of
the session that they leave. -/
def Does (R : Regime) (s : Session) (x y : Analysis α) (post : α → Session → Prop) : Prop :=
  y.run s = x.run s ∧ Runs R s (x.run s).2 ∧ post (x.run s).1 (x.run s).2

namespace Does

variable {x y : Analysis α} {f g : α → Analysis β} {mid : α → Session → Prop} {post : β → Session → Prop}

theorem pure {b : β} (holds : post b s) : Does R s (pure b) (pure b) post := ⟨rfl, .refl s, holds⟩

theorem bind (first : Does R s x y mid) (next : ∀ a t, Runs R s t → mid a t → Does R t (f a) (g a) post) :
    Does R s (x >>= f) (y >>= g) post := by
  obtain ⟨same, run, holds⟩ := first
  obtain ⟨sameRest, rest, holdsRest⟩ := next (x.run s).1 (x.run s).2 run holds
  refine ⟨?_, run.trans rest, holdsRest⟩
  show (g (y.run s).1).run (y.run s).2 = _
  rw [same]
  exact sameRest

theorem result {f : α → β} (first : Does R s x y mid) (holds : ∀ {a t}, mid a t → post (f a) t) :
    Does R s (x >>= fun a => Pure.pure (f a)) (y >>= fun a => Pure.pure (f a)) post :=
  first.bind fun _ _ _ held => pure (holds held)

theorem get {f g : Session → Analysis β} (next : Does R s (f s) (g s) post) :
    Does R s (get >>= f) (get >>= g) post := next

theorem modify {f : Session → Session} {post : PUnit → Session → Prop} (run : Runs R s (f s))
    (holds : post ⟨⟩ (f s)) :
    Does R s (modify f) (modify f) post := ⟨rfl, run, holds⟩

theorem modifyGet {f : Session → β × Session} (run : Runs R s (f s).2) (holds : post (f s).1 (f s).2) :
    Does R s (modifyGet f) (modifyGet f) post := ⟨rfl, run, holds⟩

theorem weaken {post post' : α → Session → Prop} (does : Does R s x y post)
    (holds : ∀ a t, Runs R s t → post a t → post' a t) :
    Does R s x y post' := ⟨does.1, does.2.1, holds _ _ does.2.1 does.2.2⟩

theorem update {c : Session → Session} {f g : PUnit → Analysis β} (run : Runs R s (c s))
    (next : Does R (c s) (f ⟨⟩) (g ⟨⟩) post) :
    Does R s (MonadState.modifyGet (fun s => (PUnit.unit, c s)) >>= f)
      (MonadState.modifyGet (fun s => (PUnit.unit, c s)) >>= g)
      post := ⟨next.1, run.trans next.2.1, next.2.2⟩

theorem updateGet {c : Session → α × Session} (run : Runs R s (c s).2)
    (next : Does R (c s).2 (f (c s).1) (g (c s).1) post) :
    Does R s (MonadState.modifyGet c >>= f) (MonadState.modifyGet c >>= g) post :=
      ⟨next.1, run.trans next.2.1, next.2.2⟩

theorem later {u : Session} {x' y' : Analysis α} {post : α → Session → Prop} (run : Runs R s u)
    (left : x.run s = x'.run u)
    (right : y.run s = y'.run u) (next : Does R u x' y' post) : Does R s x y post := by
  obtain ⟨same, rest, holds⟩ := next
  unfold Does
  rw [left, right]
  exact ⟨same, run.trans rest, holds⟩

theorem discard (does : Does R s x y mid) :
    Does R s (Functor.discard x) (Functor.discard y) (fun _ _ => True) := by
  refine ⟨?_, does.2.1, trivial⟩
  show ((), (y.run s).2) = ((), (x.run s).2)
  rw [does.1]

theorem forM {xs : List α} {f g : α → Analysis PUnit}
    (each : ∀ a ∈ xs, ∀ t, Runs R s t → Does R t (f a) (g a) (fun _ _ => True)) :
    Does R s (xs.forM f) (xs.forM g) (fun _ _ => True) := by
  induction xs generalizing s with
  | nil => exact pure trivial
  | cons a xs ih =>
    refine bind (each a List.mem_cons_self s (.refl s)) fun _ t run _ => ?_
    exact ih fun b mem u later => each b (List.mem_cons_of_mem a mem) u (run.trans later)

theorem mapM {xs : List α} {good : β → Prop}
    (each : ∀ a ∈ xs, ∀ t, Runs R s t → Does R t (f a) (g a) (fun b _ => good b)) :
    Does R s (xs.mapM f) (xs.mapM g) (fun bs _ => ∀ b ∈ bs, good b) := by
  induction xs generalizing s with
  | nil => exact pure (by simp)
  | cons a xs ih =>
    rw [List.mapM_cons, List.mapM_cons]
    refine bind (each a List.mem_cons_self s (.refl s)) fun b t run hb => ?_
    refine bind (ih fun c mem u later => each c (List.mem_cons_of_mem a mem) u (run.trans later))
      fun bs u _ hbs => ?_
    exact pure (List.forall_mem_cons.mpr ⟨hb, hbs⟩)

theorem optionMapM {o : Option α} {good : β → Prop}
    (each : ∀ a, o = some a → Does R s (f a) (g a) (fun b _ => good b)) :
    Does R s (o.mapM f) (o.mapM g) (fun b _ => ∀ y, b = some y → good y) := by
  cases o with
  | none => exact pure (fun _ none => nomatch none)
  | some a => exact bind (each a rfl) fun b _ _ holds => pure fun _ same => Option.some.inj same ▸ holds

theorem optionForM {o : Option α} {f g : α → Analysis PUnit}
    (each : ∀ a, o = some a → Does R s (f a) (g a) (fun _ _ => True)) :
    Does R s (o.forM f) (o.forM g) (fun _ _ => True) := by
  cases o with
  | none => exact pure trivial
  | some a => exact each a rfl

end Does

structure Room where
  start : Session
  levels : Nat

structure Ready (R : Regime) (room : Room) (s : Session) : Prop where
  sound : s.Sound R
  options : s.options = room.start.options
  levels : room.levels = s.options.maxDepth - s.depth
  active (id : FunctionId) : (s.function id).active ≤
      max (room.start.function id).active s.options.maxRecursion

variable {room : Room}

theorem Ready.after (ready : Ready R room s) (run : Runs R s t) : Ready R room t := by
  have options := run.retains.options
  have unchanged := run.guards
  refine ⟨run.sound ready.sound, options.trans ready.options, ?_, fun id => ?_⟩
  · rw [options, unchanged.depth]
    exact ready.levels
  · rw [options, unchanged.active]
    exact ready.active id

theorem Ready.deeper {start : Session} {levels : Nat} (ready : Ready R ⟨start, levels + 1⟩ s) :
    Ready R ⟨start, levels⟩ { s with depth := s.depth + 1 } := by
  have left : levels + 1 = s.options.maxDepth - s.depth := ready.levels
  refine { ready with sound := (Change.depth (s.depth + 1)).sound ready.sound, levels := ?_ }
  show levels = s.options.maxDepth - (s.depth + 1)
  omega

def Follows (R : Regime) (room : Room) (visit other : Visit) : Prop :=
  ∀ {s : Session} (node : NodeRef) {scope : ScopeId}, Ready R room s → s.HasScope R scope →
    Does R s (visit node scope) (other node scope) (fun ty _ => R.ty ty)

/-! ## Loading -/

variable {visit other : Visit}

theorem get?_memory_fetch (fetched : (s.fetch file).1 = some tree) :
    (s.fetch file).2.cache.memory.get? file = some (some tree) := by
  have remembered (c : Cache) (found : Option Nat) :
      (c.remember file found).memory.get? file = some found := by
    simp [Cache.remember, PathMap.insert, PathMap.get?_update, Path.same_refl]
  replace fetched : (s.cache.get file s.files).1 = some tree := fetched
  show (s.cache.get file s.files).2.1.memory.get? file = some (some tree)
  unfold Cache.get at fetched ⊢
  split at fetched
  · rename_i held
    cases fetched
    exact held
  · split at fetched
    · cases fetched
    · split at fetched
      · cases fetched
        exact remembered ..
      · unfold Cache.parse at fetched ⊢
        dsimp only at fetched ⊢
        split at fetched
        · cases fetched
        · cases fetched
          exact remembered ..

theorem inferFile_does (follows : Follows R room visit other) (ready : Ready R room s)
    (fresh : s.importStack.contains file = false)
    (root : NodeRef) : Does R s (inferFile visit file root) (inferFile other file root) R.typed := by
  have opened : Ready R room (s.openFile file) :=
    { ready with sound := (Change.openFile file).sound ready.sound }
  obtain ⟨same, run, typed⟩ := follows root opened opened.sound.global
  exact ⟨congrArg (fun r : Ty × Session => (r.1, r.2.closeFile s.cwd file)) same, .file file fresh run, typed⟩

theorem inferFile_run {root : NodeRef} (does : (visit root Scopes.global).run (s.openFile file) = (ty, u)) :
    (inferFile visit file root).run s = (ty, u.closeFile s.cwd file) := by
  exact congrArg (fun r : Ty × Session => (r.1, r.2.closeFile s.cwd file)) does

theorem loadTree_run {a : Ast} (held : s.cache.trees[tree]? = some a)
    (does : (visit ⟨tree, a.file, a.root⟩ Scopes.global).run
      (openFile { s with failed := s.failed.erase file } file) = (ty, u))
    (spent : u.exhausted = true) :
    (loadTree visit file tree).run s =
      (none, { (u.closeFile s.cwd file).skipExhausted with
        exhausted := false, depth := s.depth }) := by
  unfold loadTree
  rw [run_get, run_modify, run_get]
  dsimp only
  rw [held]
  refine (run_bind (inferFile_run does) _).trans ?_
  rw [run_get, show (u.closeFile s.cwd file).exhausted = true from spent, if_pos rfl]
  rfl

section

variable (follows : Follows R room visit other) (ready : Ready R room s)
include follows ready

theorem loadTree_does (fresh : s.importStack.contains file = false)
    (held : s.cache.memory.get? file = some (some tree)) :
    Does R s (loadTree visit file tree) (loadTree other file tree)
      (fun found t => (∀ ty, found = some ty → R.ty ty) ∧ t.exhausted = false) := by
  unfold loadTree
  refine .get ?_
  have cleared : Runs R s { s with failed := s.failed.erase file } := .clearFailure file tree held
  refine .update cleared (.get ?_)
  refine .bind (inferFile_does follows (ready.after cleared) fresh _) fun ty t run typed => .get ?_
  split
  · rename_i spent
    -- The depth that is put back is the one that the run has left.
    have restored : t.depth = s.depth := run.guards.depth
    refine .update ?_ (.pure ⟨by simp, rfl⟩)
    rw [← restored]
    exact .update (.giveUp spent) (.settled (.same rfl) rfl)
  · rename_i going
    rw [Bool.not_eq_true] at going
    exact .update (.update (.loaded file going) (.same rfl))
      (.pure ⟨fun _ same => Option.some.inj same ▸ typed, going⟩)

theorem load_does (path : Path) (force : Bool) :
    Does R s (load visit path force) (load other path force)
      (fun found t => (∀ ty, found = some ty → R.ty ty) ∧ (s.exhausted = false → t.exhausted = false)) := by
  unfold load
  refine .get (.get ?_)
  split
  · exact .pure ⟨by simp, fun going => going⟩
  · rename_i fresh
    refine .get ?_
    split
    · exact .pure ⟨by simp, fun going => going⟩
    · have fetched : Runs R s (s.fetch (s.files.settle path)).2 := .update (.fetch _) (.same rfl)
      refine .updateGet fetched ?_
      split
      · refine .update (.update (.recordFailure _) (.failing (.same rfl) (PathSet.prefix_insert ..))) ?_
        exact .pure ⟨by simp, fun going => going⟩
      · rename_i tree found
        refine .get ?_
        split
        · exact .update (.update .skipTree (.same rfl)) (.pure ⟨by simp, fun going => going⟩)
        · have held := get?_memory_fetch found
          obtain ⟨same, run, typed, settled⟩ :=
            loadTree_does follows (ready.after fetched) (Bool.eq_false_iff.mpr fresh) held
          exact ⟨same, run, typed, fun _ => settled⟩

theorem require_does (name : String) (force : Bool) :
    Does R s (require visit name force) (require other name force) (fun _ _ => True) := by
  unfold require
  refine .get ?_
  split
  · exact (load_does follows ready _ force).discard
  · exact .pure trivial

theorem autoload_does (name : String) :
    Does R s (autoload visit name) (autoload other name) (fun _ _ => True) := by
  unfold autoload
  refine .get ?_
  split
  · exact .pure trivial
  · rename_i new
    have noted : Runs R s { s with autoloaded := s.autoloaded ++ [snakeCase name] } :=
      .update (.autoloaded _ (by simpa using new)) (.same rfl)
    refine .update noted (.get ?_)
    refine .bind (require_does follows (ready.after noted) _ false) fun _ t _ _ => .get ?_
    exact .pure trivial

theorem resolve_does (node : NodeRef) (id : String) (kind : NameKind) (scope : ScopeId) :
    Does R s (resolve visit node id kind scope) (resolve other node id kind scope)
      (fun found t => ∀ ids, found = some ids → ∀ id ∈ ids, t.scopes.Holds id) := by
  have nothing {u : Session} : Does R u (pure none) (pure none)
      (fun (found : Option (List BindingId)) t => ∀ ids, found = some ids → ∀ id ∈ ids, t.scopes.Holds id) :=
    Does.pure fun _ none => nomatch none
  unfold resolve
  refine .get ?_
  split
  · rename_i ids found
    exact .pure fun _ same => by cases same; exact holds_resolveName? found
  · split
    · refine .bind (autoload_does follows ready id) fun loaded t run _ => ?_
      split
      · exact .get (.pure fun _ found => holds_resolveName? found)
      · exact nothing
    · exact nothing

theorem reference_does {node : NodeRef} {id : String} (named : s.nameOf? node = some id)
    (kind : NameKind) (scope : ScopeId) :
    Does R s (reference visit node id kind scope) (reference other node id kind scope)
      (fun result _ => R.ty result.1) := by
  unfold reference
  refine .bind (resolve_does follows ready node id kind scope) fun found t run held => ?_
  have still : t.nameOf? node = some id := (nameOf?_retained run.retains.trees named).1
  obtain ⟨settled, typed⟩ := runs_settleReference (ready.after run).sound still held
  exact .modifyGet settled typed

end

/-! ## Targets -/

def bindStep (visit : Visit) (bindPart : NodeRef → Ty → Analysis Unit) (kind : BindingKind)
    (scope : ScopeId) (target : NodeRef) (ty : Ty) : Analysis Unit := do
  match (← get).kind target with
  | .name id nameKind => modify (·.bindName target id nameKind ty kind scope)
  | .member receiver attr =>
    let this ← visit (target.sibling receiver) scope
    modify (·.bindMember this (target.sibling attr) ty)
  | .array elts =>
    elts.forM fun id => do bindPart (target.sibling id) ((← get).partType (target.sibling id) ty.destructured)
  | .starred value => bindPart (target.sibling value) (if ty.isList then ty else .listOf ty)
  | _ => discard (visit target scope)

theorem bindStep_does (follows : Follows R room visit other) (kind : BindingKind) {target : NodeRef}
    (typed : R.ty ty)
    (ready : Ready R room s) (there : s.HasScope R scope) {bindPart bindPart' : NodeRef → Ty → Analysis Unit}
    (parts : ∀ id ∈ (s.kind target).children, ∀ {t : Session} {ty : Ty}, Runs R s t → R.ty ty →
      Does R t (bindPart (target.sibling id) ty) (bindPart' (target.sibling id) ty) (fun _ _ => True)) :
    Does R s (bindStep visit bindPart kind scope target ty)
      (bindStep other bindPart' kind scope target ty) (fun _ _ => True) := by
  unfold bindStep
  refine .get ?_
  split
  · rename_i named
    have rooted : s.HasTree R target := hasTree_of_kind fun empty => by simp [empty] at named
    exact .modify (runs_bindName ready.sound there typed rooted ..) trivial
  · refine .bind (follows _ ready there) fun receiver t run _ => ?_
    exact .modify (runs_bindMember typed ..) trivial
  · rename_i elts taken
    refine .forM fun id mem t run => .get ?_
    refine parts id (by rw [taken]; exact mem) run ?_
    unfold partType
    split
    · exact R.closed.listOf (R.closed.destructured typed)
    · exact R.closed.destructured typed
  · rename_i value splat
    refine parts value (by rw [splat]; exact List.mem_singleton_self _) (.refl s) ?_
    split
    · exact typed
    · exact R.closed.listOf typed
  · exact (follows _ ready there).discard

theorem bindTargetWithin_does (follows : Follows R room visit other) (kind : BindingKind)
    (bound : Nat) (target : NodeRef) (typed : R.ty ty)
    (ready : Ready R room s) (there : s.HasScope R scope) :
    Does R s (bindTargetWithin visit kind scope bound target ty)
      (bindTargetWithin other kind scope bound target ty) (fun _ _ => True) := by
  induction bound generalizing s target ty with
  | zero => exact .pure trivial
  | succ bound ih =>
    exact bindStep_does follows kind typed ready there fun id _ t ty run typed =>
      ih _ typed (ready.after run) (there.after run)

theorem bindTarget_does (follows : Follows R room visit other) (target : NodeRef) (typed : R.ty ty)
    (kind : BindingKind) (ready : Ready R room s) (there : s.HasScope R scope) :
    Does R s (bindTarget visit target ty kind scope) (bindTarget other target ty kind scope)
      (fun _ _ => True) :=
  Does.get (bindTargetWithin_does follows kind _ target typed ready there)

end RubyInfer.Analysis
