import RubyInfer.Proofs.Session.Telling
import RubyInfer.Proofs.Session.TwinSteps

/-!
# Inference in two sessions

`Mirrors` says of two computations that they lead from sessions alike to sessions alike, with
results that correspond, as long as the first one passes only through sessions that the pairing
follows. It has a rule for each way in which computations are put together, and `tell_mirrors`
closes the recursion: whatever node is inferred in one session, its twin is inferred alike in the
other.
-/

namespace RubyInfer

open Relator

structure Pairing.At (P : Pairing) (st : Stage) (n n' : NodeRef) (i i' : ScopeId) : Prop where
  node : NodeRef.Twin P.toFrame st.links n n'
  scope : P.ScopeTwin st.scopes i i'

namespace Pairing.At

variable {P : Pairing} {st st' : Stage} {n n' : NodeRef} {i i' : ScopeId}

theorem mono (at_ : P.At st n n' i i') (later : st ≤ st') : P.At st' n n' i i' :=
  ⟨at_.node.mono later.links, at_.scope.mono later.scopes⟩

theorem sibling (at_ : P.At st n n' i i') (id : NodeId) :
    P.At st (n.sibling id) (n'.sibling id) i i' := ⟨at_.node.sibling id, at_.scope⟩

end Pairing.At

namespace Analysis

open Session

variable {P : Pairing} {st : Stage} {s s' : Session} {α β γ δ : Type}

/-- Both computations lead to sessions alike, at a later stage, and their results are related
there. -/
def Mirrors (P : Pairing) (st : Stage) (s s' : Session) (x : Told α) (y : Analysis β)
    (post : Stage → α → β → Prop) : Prop :=
  (∀ m ∈ through (x s).2.2, P.ok m) →
    ∃ st', st ≤ st' ∧ Session.Twin P st' (x s).2.1 (y.run s').2 ∧ post st' (x s).1 (y.run s').1

abbrev Typed (P : Pairing) : Stage → Ty → Ty → Prop := fun _ => P.TyTwin

abbrev Done : Stage → α → β → Prop := fun _ _ _ => True

namespace Mirrors

variable {x : Told α} {y : Analysis β} {f : α → Told γ} {g : β → Analysis δ}
    {M : Stage → α → β → Prop} {post : Stage → γ → δ → Prop}
  {rel : α → β → Prop} {c' : Session → β × Session} {c : Session → α × Session} {answer : γ → δ → Prop}

theorem pure {a : γ} {b : δ} (twin : Session.Twin P st s s') (holds : post st a b) :
    Mirrors P st s s' (Pure.pure a) (Pure.pure b) post := fun _ => ⟨st, st.le_refl, twin, holds⟩

theorem bind (first : Mirrors P st s s' x y M)
    (next : ∀ {st' t t' a b}, st ≤ st' → Session.Twin P st' t t' → M st' a b →
      Mirrors P st' t t' (f a) (g b) post) :
    Mirrors P st s s' (x >>= f) (y >>= g) post := by
  intro ok
  replace ok : ∀ m ∈ through ((x s).2.2 ++ (f (x s).1 (x s).2.1).2.2), P.ok m := ok
  rw [through_append, List.forall_mem_append] at ok
  obtain ⟨st₁, later₁, twin₁, holds₁⟩ := first ok.1
  obtain ⟨st₂, later₂, twin₂, holds₂⟩ := next later₁ twin₁ holds₁ ok.2
  exact ⟨st₂, Stage.le_trans later₁ later₂, twin₂, holds₂⟩

theorem result {f : α → γ} {g : β → δ} (first : Mirrors P st s s' x y M)
    (holds : ∀ {st' a b}, M st' a b → post st' (f a) (g b)) :
    Mirrors P st s s' (x >>= fun a => Pure.pure (f a)) (y >>= fun b => Pure.pure (g b)) post :=
  first.bind fun _ twin related => pure twin (holds related)

theorem get {f : Session → Told γ} {g : Session → Analysis δ} (next : Mirrors P st s s' (f s) (g s') post) :
    Mirrors P st s s' (get >>= f) (get >>= g) post := next

theorem modifyGet (step : P.ok (c s).2 → ∃ st', st ≤ st' ∧ Session.Twin P st' (c s).2 (c' s').2 ∧
    M st' (c s).1 (c' s').1) :
    Mirrors P st s s' (modifyGet c) (modifyGet c') M := by
  intro ok
  replace ok : ∀ m ∈ through [Event.change s (c s).2], P.ok m := ok
  exact step (ok _ (by simp [Event.sessions]))

theorem modify {c c' : Session → Session} (twin : Session.Twin P st (c s) (c' s')) :
    Mirrors P st s s' (modify c) (modify c') Done :=
  modifyGet fun _ => ⟨st, st.le_refl, twin, trivial⟩

theorem updateGet (step : P.ok (c s).2 → ∃ st', st ≤ st' ∧ Session.Twin P st' (c s).2 (c' s').2 ∧
    M st' (c s).1 (c' s').1)
    (next : ∀ st', st ≤ st' → Session.Twin P st' (c s).2 (c' s').2 → M st' (c s).1 (c' s').1 →
      Mirrors P st' (c s).2 (c' s').2 (f (c s).1) (g (c' s').1) post) :
    Mirrors P st s s' (MonadState.modifyGet c >>= f) (MonadState.modifyGet c' >>= g) post := by
  intro ok
  replace ok : ∀ m ∈ through (Event.change s (c s).2 :: (f (c s).1 (c s).2).2.2), P.ok m := ok
  rw [through_cons, List.forall_mem_append] at ok
  obtain ⟨st₁, later₁, twin₁, holds₁⟩ := step (ok.1 _ (by simp [Event.sessions]))
  obtain ⟨st₂, later₂, twin₂, holds₂⟩ := next st₁ later₁ twin₁ holds₁ ok.2
  exact ⟨st₂, Stage.le_trans later₁ later₂, twin₂, holds₂⟩

theorem update {c c' : Session → Session} {f : PUnit → Told γ} {g : PUnit → Analysis δ}
    (next : Mirrors P st (c s) (c' s') (f ⟨⟩) (g ⟨⟩) post) :
    Mirrors P st s s' (MonadState.modifyGet (fun s => (PUnit.unit, c s)) >>= f)
      (MonadState.modifyGet (fun s => (PUnit.unit, c' s)) >>= g) post := by
  intro ok
  replace ok : ∀ m ∈ through (Event.change s (c s) :: (f ⟨⟩ (c s)).2.2), P.ok m := ok
  rw [through_cons, List.forall_mem_append] at ok
  exact next ok.2

theorem set {t t' : Session} {f : PUnit → Told γ} {g : PUnit → Analysis δ}
    (next : Mirrors P st t t' (f ⟨⟩) (g ⟨⟩) post) :
    Mirrors P st s s' (MonadState.set t >>= f) (MonadState.set t' >>= g) post := by
  intro ok
  replace ok : ∀ m ∈ through (Event.change s t :: (f ⟨⟩ t).2.2), P.ok m := ok
  rw [through_cons, List.forall_mem_append] at ok
  exact next ok.2

theorem discard (mirrors : Mirrors P st s s' x y M) :
    Mirrors P st s s' (Functor.discard x) (Functor.discard y) Done :=
  mirrors.result fun _ => trivial

theorem forM {f : α → Told PUnit} {g : β → Analysis PUnit} {xs : List α} {ys : List β}
    (related : List.Forall₂ rel xs ys) (twin : Session.Twin P st s s')
    (each : ∀ a b, rel a b → ∀ st' t t', st ≤ st' → Session.Twin P st' t t' →
      Mirrors P st' t t' (f a) (g b) Done) :
    Mirrors P st s s' (xs.forM f) (ys.forM g) Done := by
  induction related generalizing st s s' with
  | nil => exact pure twin trivial
  | cons first _ ih =>
    refine bind (each _ _ first st s s' st.le_refl twin) fun later twin _ => ?_
    exact ih twin fun a b rel st₂ u u' further => each a b rel st₂ u u' (Stage.le_trans later further)

theorem mapM {xs : List α} {ys : List β} (related : List.Forall₂ rel xs ys) (twin : Session.Twin P st s s')
    (each : ∀ a b, rel a b → ∀ st' t t', st ≤ st' → Session.Twin P st' t t' →
      Mirrors P st' t t' (f a) (g b) fun _ => answer) :
    Mirrors P st s s' (xs.mapM f) (ys.mapM g) fun _ => List.Forall₂ answer := by
  induction related generalizing st s s' with
  | nil => exact pure twin .nil
  | cons first _ ih =>
    rw [List.mapM_cons, List.mapM_cons]
    refine bind (each _ _ first st s s' st.le_refl twin) fun later twin holds => ?_
    refine bind (ih twin fun a b rel st₂ u u' further =>
      each a b rel st₂ u u' (Stage.le_trans later further)) ?_
    exact fun _ twin others => pure twin (.cons holds others)

theorem optionMapM {o : Option α} {o' : Option β} (related : Option.Rel rel o o')
    (twin : Session.Twin P st s s')
    (each : ∀ a b, rel a b → Mirrors P st s s' (f a) (g b) fun _ => answer) :
    Mirrors P st s s' (o.mapM f) (o'.mapM g) fun _ => Option.Rel answer := by
  cases related with
  | none => exact pure twin .none
  | some first => exact (each _ _ first).result .some

theorem optionForM {f : α → Told PUnit} {g : β → Analysis PUnit} {o : Option α} {o' : Option β}
    (related : Option.Rel rel o o')
    (twin : Session.Twin P st s s') (each : ∀ a b, rel a b → Mirrors P st s s' (f a) (g b) Done) :
    Mirrors P st s s' (o.forM f) (o'.forM g) Done := by
  cases related with
  | none => exact pure twin trivial
  | some first => exact each _ _ first

theorem forEach {xs : List α} {f : α → Told PUnit} {g : α → Analysis PUnit} (twin : Session.Twin P st s s')
    (each : ∀ {st' t t'} a, st ≤ st' → Session.Twin P st' t t' → Mirrors P st' t t' (f a) (g a) Done) :
    Mirrors P st s s' (xs.forM f) (xs.forM g) Done :=
  forM (List.forall₂_same.mpr fun _ _ => rfl) twin fun a _ same _ _ _ later after => same ▸ each a later after

theorem mapEach {xs : List α} {g : α → Analysis δ} (twin : Session.Twin P st s s')
    (each : ∀ {st' t t'} a, st ≤ st' → Session.Twin P st' t t' →
      Mirrors P st' t t' (f a) (g a) fun _ => answer) :
    Mirrors P st s s' (xs.mapM f) (xs.mapM g) fun _ => List.Forall₂ answer :=
  mapM (List.forall₂_same.mpr fun _ _ => rfl) twin fun a _ same _ _ _ later after => same ▸ each a later after

theorem optionEach {o : Option α} {f : α → Told PUnit} {g : α → Analysis PUnit}
    (twin : Session.Twin P st s s')
    (each : ∀ a, Mirrors P st s s' (f a) (g a) Done) : Mirrors P st s s' (o.forM f) (o.forM g) Done := by
  cases o with
  | none => exact pure twin trivial
  | some a => exact each a

end Mirrors

def Reflects (P : Pairing) (told : VisitIn Told) (visit : Visit) : Prop :=
  ∀ {st : Stage} {s s' : Session} {n n' : NodeRef} {i i' : ScopeId}, Session.Twin P st s s' →
    P.At st n n' i i' →
    Mirrors P st s s' (told n i) (visit n' i') (Typed P)

section Parts

variable {told : VisitIn Told} {visit : Visit} {n n' : NodeRef} {i i' : ScopeId}
    {call call' : CallArgs} {receiver receiver' : Ty}
  {ty ty' : Ty} {ts ts' : List Ty} {kind : NameKind} {supply supply' : Supply} {id : String}

/-! ## Values and arguments -/

abbrev KeywordsTwin (P : Pairing) : List (String × Ty) → List (String × Ty) → Prop :=
  List.Forall₂ fun e e' => e'.1 = e.1 ∧ P.TyTwin e.2 e'.2

structure CallTwin (P : Pairing) (call call' : CallArgs) : Prop where
  positional : List.Forall₂ P.TyTwin call.positional call'.positional
  keywords : KeywordsTwin P call.keywords call'.keywords
  star : Option.Rel P.TyTwin call.star call'.star
  block : Option.Rel P.TyTwin call.block call'.block

theorem CallTwin.none : CallTwin P {} {} := ⟨.nil, .nil, .none, .none⟩

structure SupplyTwin (P : Pairing) (supply supply' : Supply) : Prop where
  args : List.Forall₂ P.TyTwin supply.args supply'.args
  keywords : KeywordsTwin P supply.keywords supply'.keywords

theorem takeKeyword?_rel (name : String) {ks ks' : List (String × Ty)} (keywords : KeywordsTwin P ks ks') :
    Option.Rel (fun r r' => P.TyTwin r.1 r'.1 ∧ KeywordsTwin P r.2 r'.2) (takeKeyword? name ks)
      (takeKeyword? name ks') := by
  induction keywords with
  | nil => exact .none
  | @cons e e' ks ks' first rest ih =>
    obtain ⟨key, ty⟩ := e
    obtain ⟨key', ty'⟩ := e'
    obtain ⟨rfl, typed⟩ := first
    unfold takeKeyword?
    split
    · exact .some ⟨typed, rest⟩
    · generalize takeKeyword? name ks = x, takeKeyword? name ks' = y at ih
      cases ih with
      | none => exact .none
      | some found => exact .some ⟨found.1, .cons ⟨rfl, typed⟩ found.2⟩

theorem next_rel (same : SupplyTwin P supply supply') (name : Option String) :
    Option.Rel P.TyTwin (supply.next name).1 (supply'.next name).1 ∧
      SupplyTwin P (supply.next name).2 (supply'.next name).2 := by
  obtain ⟨args, keywords⟩ := supply
  obtain ⟨args', keywords'⟩ := supply'
  obtain ⟨given, named⟩ := same
  unfold Supply.next
  dsimp only at given named
  cases given with
  | cons first rest => exact ⟨.some first, rest, named⟩
  | nil =>
    cases name with
    | none => exact ⟨.none, .nil, named⟩
    | some name =>
      have found := takeKeyword?_rel name named
      dsimp only [Option.bind_some]
      generalize takeKeyword? name keywords = x, takeKeyword? name keywords' = y at found
      cases found with
      | none => exact ⟨.none, .nil, named⟩
      | some found => exact ⟨.some found.1, .nil, found.2⟩

theorem getD_twin {o o' : Option Ty} (given : Option.Rel P.TyTwin o o') (fallback : P.TyTwin ty ty') :
    P.TyTwin (o.getD ty) (o'.getD ty') := by
  cases given with
  | none => exact fallback
  | some typed => exact typed

theorem headD_twin (typed : List.Forall₂ P.TyTwin ts ts') :
    P.TyTwin (ts.headD .unknown) (ts'.headD .unknown) := by
  cases typed with
  | nil => exact .unknown
  | cons first _ => exact first

theorem tail_twins (typed : List.Forall₂ P.TyTwin ts ts') : List.Forall₂ P.TyTwin ts.tail ts'.tail := by
  cases typed with
  | nil => exact .nil
  | cons _ rest => exact rest

theorem restList_twin {extra extra' : List Ty} (typed : List.Forall₂ P.TyTwin extra extra')
    {star star' : Option Ty}
    (splat : Option.Rel P.TyTwin star star') : P.TyTwin (restList extra star) (restList extra' star') := by
  apply Ty.Twin.listOf
  apply Ty.Twin.makeUnion
  apply List.rel_append typed
  cases splat with
  | none => exact .nil
  | @some ty _ typed =>
    obtain ⟨rfl, within⟩ := typed
    cases ty with
    | list elem literals =>
      simp only [Ty.Within] at within
      simp only [Ty.shift]
      exact .cons ⟨rfl, within.1⟩ .nil
    | _ => simp [Ty.shift]

theorem callKey_twin {id id' : FunctionId} (known : P.FunctionTwin id id')
    (received : P.TyTwin receiver receiver') (args : CallTwin P call call') :
    CallKey.Twin P.toFrame (callKey id receiver call) (callKey id' receiver' call') :=
  ⟨known, received.shape, List.rel_map (fun _ _ typed => typed.shape) args.positional⟩

structure ClassTwin (P : Pairing) (c c' : ClassId) : Prop where
  eq : c' = c + P.offsets.classes
  spoken : P.vocabulary.classObj c

theorem classesOf_twin (typed : P.TyTwin ty ty') :
    List.Forall₂ (ClassTwin P) (classesOf ty) (classesOf ty') := by
  apply typed.filterMap_members
  rintro m _ ⟨rfl, within⟩
  cases m with
  | classObj c =>
    simp only [Ty.Within] at within
    simpa [Ty.shift] using ClassTwin.mk rfl within
  | _ => simp [Ty.shift]

theorem isEmpty_eq {α β : Type} {rel : α → β → Prop} {xs : List α} {ys : List β}
    (related : List.Forall₂ rel xs ys) :
    ys.isEmpty = xs.isEmpty := by
  cases related <;> rfl

theorem functionKind_eq {owner owner' : Option Owner} (owned : Option.Rel P.OwnerTwin owner owner')
    (classLevel : Bool) :
    functionKind owner' classLevel = functionKind owner classLevel := by
  cases owned <;> rfl

theorem stringLiterals_eq (typed : List.Forall₂ P.TyTwin ts ts') :
    ts'.flatMap Ty.stringLiterals = ts.flatMap Ty.stringLiterals ∧
      ∀ w ∈ ts.flatMap Ty.stringLiterals, P.vocabulary.text w := by
  induction typed with
  | nil => exact ⟨rfl, fun _ mem => nomatch mem⟩
  | @cons t t' ts ts' first _ ih =>
    obtain ⟨same, spoken⟩ := first.stringLiterals
    rw [List.flatMap_cons, List.flatMap_cons, same, ih.1]
    exact ⟨rfl, List.forall_mem_append.mpr ⟨spoken, ih.2⟩⟩

theorem modulesOf_twin (typed : List.Forall₂ P.TyTwin ts ts') :
    List.Forall₂ (fun m m' => m' = m + P.offsets.modules) (modulesOf ts) (modulesOf ts') := by
  refine List.rel_filterMap (fun t t' typed => ?_) (Ty.Twin.forall₂_members typed)
  obtain ⟨rfl, -⟩ := typed
  cases t <;> simp [Ty.shift]

theorem keywordName_eq (twin : Session.Twin P st s s') (node : NodeRef.Twin P.toFrame st.links n n') :
    keywordName s' n' = keywordName s n := by
  unfold keywordName
  rw [twin.kind_eq node]

theorem isSlice_eq (twin : Session.Twin P st s s') (at_ : P.At st n n' i i')
    (part : Option NodeId) : isSlice s' n' part = isSlice s n part := by
  unfold isSlice
  congr 1
  funext id
  rw [twin.kind_eq (at_.sibling id).node]

variable (reflects : Reflects P told visit) (twin : Session.Twin P st s s') (at_ : P.At st n n' i i')
include reflects twin

/-! ## Loading -/

theorem inferFile_mirrors {file : Path} (place : ∀ d ∈ file.parent?, P.place d)
    (root : NodeRef.Twin P.toFrame st.links n n') :
    Mirrors P st s s' (inferFile told file n) (inferFile visit file n') (Typed P) := by
  have global : P.ScopeTwin st.scopes Scopes.global Scopes.global :=
    ⟨twin.sized ▸ twin.scopes.global, P.scope_global.symm⟩
  have opened := twin.openFile file place
  unfold inferFile
  refine .get (.set ?_)
  refine .bind (reflects opened ⟨root, global⟩) fun _ inside typed => ?_
  rw [twin.cwd]
  refine .update (.pure (inside.closeFile s.cwd file fun d back => twin.roots d ?_) typed)
  simp [requireRoots, Option.mem_def.mp back]

theorem loadTree_mirrors {file : Path} (source : P.source file)
    (place : ∀ d ∈ file.parent?, P.place d) {tree tree' : Nat}
    (linked : st.links tree tree') (own : P.source (s.cache.trees[tree]?.getD default).file) :
    Mirrors P st s s' (loadTree told file tree) (loadTree visit file tree') fun _ => Option.Rel P.TyTwin := by
  unfold loadTree
  refine .get ?_
  rw [twin.depth]
  refine .update (.get ?_)
  have trees : s'.cache.trees[tree']? = s.cache.trees[tree]? := P.trees twin.store linked
  rw [trees]
  refine .bind (inferFile_mirrors reflects (twin.clearFailure file) place ⟨linked, rfl, rfl, own⟩)
    fun _ inside typed => .get ?_
  rw [inside.exhausted]
  split
  · have ended := (inside.skipExhausted.setExhausted false).setDepth s.depth
    exact .update (.pure ended .none)
  · exact .update (.pure (inside.addLoaded source) (.some typed))

theorem load_mirrors {path : Path} (target : P.target path) (force : Bool) :
    Mirrors P st s s' (load told path force) (load visit path force) fun _ => Option.Rel P.TyTwin := by
  have settled : s'.files.settle path = s.files.settle path := P.settle twin.store target
  unfold load
  refine .get (.get ?_)
  rw [settled, twin.importStack]
  split
  · exact .pure twin .none
  · refine .get ?_
    rw [twin.loaded]
    split
    · exact .pure twin .none
    · refine .updateGet (M := fun st t t' => P.source (s.files.settle path) ∧
        Option.Rel
          (fun t t' => st.links t t' ∧
            P.source ((s.fetch (s.files.settle path)).2.cache.trees[t]?.getD default).file ∧
            ∀ d ∈ (s.files.settle path).parent?, P.place d) t t') (fun ok => ?_) fun st₁ _ twin₁ fetched => ?_
      · obtain ⟨source, st₁, later, twin₁, result⟩ := twin.fetch target ok
        exact ⟨st₁, later, twin₁, source, result⟩
      · obtain ⟨source, result⟩ := fetched
        generalize (s.fetch (s.files.settle path)).1 = x, (s'.fetch (s.files.settle path)).1 = y at result
        cases result with
        | none => exact .update (.pure (twin₁.recordFailure source) .none)
        | some present =>
          obtain ⟨linked, own, place⟩ := present
          have trees := P.trees twin₁.store linked
          have limit : (s'.fetch (s.files.settle path)).2.options.maxNodes =
              (s.fetch (s.files.settle path)).2.options.maxNodes := by
            rw [twin₁.options]
          refine .get ?_
          dsimp only at trees ⊢
          rw [trees, limit]
          split
          · exact .update (.pure twin₁.skipExhausted .none)
          · exact loadTree_mirrors reflects twin₁ source place linked own

theorem require_mirrors {name : String} (spoken : P.vocabulary.text name) (force : Bool) :
    Mirrors P st s s' (require told name force) (require visit name force) Done := by
  obtain ⟨found, targets⟩ :=
    P.find twin.store twin.options twin.suited twin.cwd twin.projectDir twin.roots spoken
  unfold require
  refine .get ?_
  rw [found]
  split
  · rename_i file meant
    exact (load_mirrors reflects twin (targets file meant) force).discard
  · exact .pure twin trivial

theorem autoload_mirrors {name : String} (spoken : P.vocabulary.text (snakeCase name))
    (project : s.projectDir ≠ none) :
    Mirrors P st s s' (autoload told name) (autoload visit name) fun _ => Eq := by
  unfold autoload
  refine .get ?_
  rw [twin.autoloaded project]
  split
  · exact .pure twin rfl
  · refine .update (.get ?_)
    refine .bind (require_mirrors reflects (twin.noteAutoload _) spoken false)
      fun {_ t t' _ _} _ after _ => .get ?_
    refine .pure after ?_
    show decide (s.loaded.size < t.loaded.size) = decide (s'.loaded.size < t'.loaded.size)
    rw [twin.loaded, after.loaded]

include at_ in
theorem resolve_mirrors (written : s.kind n = .name id kind) :
    Mirrors P st s s' (resolve told n id kind i) (resolve visit n' id kind i') fun _ found found' =>
      found' = found.map (·.map P.binding) := by
  unfold resolve
  refine .get ?_
  rw [at_.scope.eq, twin.resolveName?_eq]
  cases s.resolveName? i id kind with
  | some ids => exact .pure twin rfl
  | none =>
    have wanted : s'.options.autoloadConstants = s.options.autoloadConstants := by rw [twin.options]
    dsimp only [Option.map_none]
    rw [wanted, twin.inProject_eq at_.node]
    split
    · rename_i asked
      simp only [Bool.and_eq_true, decide_eq_true_eq] at asked
      obtain ⟨⟨⟨-, rfl⟩, constant⟩, inside⟩ := asked
      have project : s.projectDir ≠ none := by
        intro none
        simp [inProject, none] at inside
      have spoken := (twin.speaks at_.node).2 id written constant
      refine .bind (autoload_mirrors reflects twin spoken project) fun _ after same => ?_
      subst same
      split
      · refine .get (.pure after ?_)
        rw [after.resolveName?_eq]
      · exact .pure after rfl
    · exact .pure twin rfl

include at_ in
theorem reference_mirrors (written : s.kind n = .name id kind) :
    Mirrors P st s s' (reference told n id kind i) (reference visit n' id kind i') fun _ a b =>
      P.TyTwin a.1 b.1 ∧ b.2 = a.2 := by
  unfold reference
  refine .bind (resolve_mirrors reflects twin at_ written) fun {st₁ _ _ found _} later after same => ?_
  subst same
  refine .modifyGet fun _ => ?_
  obtain ⟨settled, typed, callable⟩ := after.settleReference (at_.node.mono later.links) id found
  exact ⟨st₁, st₁.le_refl, settled, typed, callable⟩

section

include at_

/-! ## Targets and parameters -/

theorem visitOption_mirrors (child : Option NodeId) :
    Mirrors P st s s' (visitOption told n child i) (visitOption visit n' child i') (Typed P) := by
  cases child with
  | none => exact .pure twin .nil
  | some id => exact reflects twin (at_.sibling id)

theorem optionVisit_mirrors (child : Option NodeId) :
    Mirrors P st s s' (child.mapM fun id => told (n.sibling id) i)
      (child.mapM fun id => visit (n'.sibling id) i')
      fun _ => Option.Rel P.TyTwin := by
  have same : Option.Rel Eq child child := by cases child <;> simp
  refine .optionMapM same twin fun id id' same => ?_
  subst same
  exact reflects twin (at_.sibling id)

theorem bindTargetWithin_mirrors (kind : BindingKind) (bound : Nat) (typed : P.TyTwin ty ty') :
    Mirrors P st s s' (bindTargetWithin told kind i bound n ty)
      (bindTargetWithin visit kind i' bound n' ty') Done := by
  induction bound generalizing st s s' n n' ty ty' with
  | zero => exact .pure twin trivial
  | succ bound ih =>
    refine .get ?_
    rw [twin.kind_eq at_.node]
    split
    · exact .modify (twin.bindName at_.node _ _ typed kind at_.scope)
    · rename_i receiver attr _
      refine .bind (reflects twin (at_.sibling receiver)) fun later after received => ?_
      exact .modify (after.bindMember received ((at_.mono later).sibling attr).node typed)
    · rename_i elts _
      refine .forEach twin fun id later after => ?_
      have part := (at_.mono later).sibling id
      exact .get (ih after part (after.partType_twin part.node typed.destructured))
    · rename_i value _
      rw [typed.isList_eq]
      refine ih twin (at_.sibling value) ?_
      split
      · exact typed
      · exact typed.listOf
    · exact (reflects twin at_).discard

theorem bindTarget_mirrors (typed : P.TyTwin ty ty') (kind : BindingKind) :
    Mirrors P st s s' (bindTarget told n ty kind i) (bindTarget visit n' ty' kind i') Done := by
  unfold bindTarget
  refine .get ?_
  rw [twin.tree_eq at_.node]
  exact bindTargetWithin_mirrors reflects twin at_ kind _ typed

theorem bindParam_mirrors (typed : P.TyTwin ty ty') :
    Mirrors P st s s' (bindParam told n ty i) (bindParam visit n' ty' i') Done := by
  unfold bindParam
  refine .get ?_
  rw [twin.kind_eq at_.node]
  split
  · refine .modify ?_
    rw [twin.span_eq at_.node]
    exact (twin.bind at_.scope .object _ at_.node _ .parameter typed).2
  · exact bindTarget_mirrors reflects twin at_ typed .parameter

theorem bindPositional_mirrors (params : List (NodeId × Option NodeId)) (same : SupplyTwin P supply supply') :
    Mirrors P st s s' (bindPositional told n i params supply)
      (bindPositional visit n' i' params supply') fun _ => SupplyTwin P := by
  induction params generalizing st s s' supply supply' with
  | nil => exact .pure twin same
  | cons param params ih =>
    obtain ⟨id, default⟩ := param
    unfold bindPositional
    refine .get ?_
    rw [twin.nameOf?_eq (at_.sibling id).node]
    obtain ⟨given, rest⟩ := next_rel same (s.nameOf? (n.sibling id))
    have goOn {st₁ : Stage} {t t' : Session} {ty ty' : Ty} (later : st ≤ st₁)
        (after : Session.Twin P st₁ t t') (typed : P.TyTwin ty ty') :
        Mirrors P st₁ t t'
          (do bindParam told (n.sibling id) ((supply.next (s.nameOf? (n.sibling id))).1.getD ty) i
              bindPositional told n i params (supply.next (s.nameOf? (n.sibling id))).2)
          (do bindParam visit (n'.sibling id) ((supply'.next (s.nameOf? (n.sibling id))).1.getD ty') i'
              bindPositional visit n' i' params (supply'.next (s.nameOf? (n.sibling id))).2)
                (fun _ => SupplyTwin P) := by
      refine .bind (bindParam_mirrors reflects after ((at_.mono later).sibling id) (getD_twin given typed)) ?_
      exact fun further last _ => ih last (at_.mono (Stage.le_trans later further)) rest
    cases default with
    | none => exact goOn st.le_refl twin .unknown
    | some d => exact .bind (reflects twin (at_.sibling d)) fun later after typed => goOn later after typed

theorem bindEach_mirrors (ids : List NodeId) {args args' : List Ty}
    (typed : List.Forall₂ P.TyTwin args args') :
    Mirrors P st s s' (bindEach told n i ids args) (bindEach visit n' i' ids args') Done := by
  induction ids generalizing st s s' args args' with
  | nil => exact .pure twin trivial
  | cons id ids ih =>
    refine .bind (bindParam_mirrors reflects twin (at_.sibling id) (headD_twin typed)) ?_
    exact fun later after _ => ih after (at_.mono later) (tail_twins typed)

theorem bindParams_mirrors (params : Params NodeId) (args : CallTwin P call call') :
    Mirrors P st s s' (bindParams told n params call i) (bindParams visit n' params call' i') Done := by
  unfold bindParams
  refine .bind (bindPositional_mirrors reflects twin at_ _ ⟨args.positional, args.keywords⟩)
    fun {_ _ _ supply supply'} later₁ twin₁ left => ?_
  replace at_ := at_.mono later₁
  rw [← left.args.length_eq]
  refine .bind (bindEach_mirrors reflects twin₁ at_ _ (List.forall₂_drop _ left.args))
    fun later₂ twin₂ _ => ?_
  replace at_ := at_.mono later₂
  have rest := restList_twin
    (List.forall₂_take (supply.args.length - params.afterRest.length) left.args) args.star
  refine .bind (.optionEach twin₂ fun id => bindParam_mirrors reflects twin₂ (at_.sibling id) rest)
    fun later₃ twin₃ _ => ?_
  replace at_ := at_.mono later₃
  have values : List.Forall₂ P.TyTwin (supply.keywords.map Prod.snd) (supply'.keywords.map Prod.snd) :=
    List.rel_map (fun _ _ entry => entry.2) left.keywords
  refine .bind (.optionEach twin₃ fun id =>
    bindParam_mirrors reflects twin₃ (at_.sibling id) (.dict (.symbol none) (.makeUnion values)))
    fun later₄ twin₄ _ => ?_
  replace at_ := at_.mono later₄
  refine .bind (.optionEach twin₄ fun id =>
    bindParam_mirrors reflects twin₄ (at_.sibling id) (getD_twin args.block .unknown))
    fun later₅ twin₅ _ => ?_
  replace at_ := at_.mono later₅
  refine .optionForM args.block twin₅ fun block block' typed => .modify ?_
  rw [twin₅.span_eq at_.node]
  exact (twin₅.bind at_.scope .object blockName at_.node _ .scope typed).2

end

/-! ## Applications -/

theorem enter_mirrors {key key' : CallKey} (same : CallKey.Twin P.toFrame key key')
    (there : key.function < s.functions.size)
    (received : P.TyTwin receiver receiver') (args : CallTwin P call call') :
    Mirrors P st s s' (enter told key receiver call) (enter visit key' receiver' call') (Typed P) := by
  have record := twin.function_twin same.function there
  unfold enter
  refine .get (.get ?_)
  rw [twin.kind_eq record.node, record.isLambda]
  split
  · rename_i locator params body _ _ _
    refine .updateGet (M := fun st => P.ScopeTwin st.scopes) (fun _ => twin.enterFrame same.function there)
      fun st₁ later₁ twin₁ frame => ?_
    have goOn {st₂ : Stage} {t t' : Session} (later₂ : st ≤ st₂) (twin₂ : Session.Twin P st₂ t t')
        (frame : P.ScopeTwin st₂.scopes (s.enterFrame key.function).1 (s'.enterFrame key'.function).1) :
        Mirrors P st₂ t t'
          (do bindParams told (s.function key.function).node params call (s.enterFrame key.function).1
              modify (·.pushCall key)
              let ty ← visitOption told (s.function key.function).node body (s.enterFrame key.function).1
              modifyGet (·.popCall key ty))
          (do bindParams visit (s'.function key'.function).node params call' (s'.enterFrame key'.function).1
              modify (·.pushCall key')
              let ty ← visitOption visit (s'.function key'.function).node body (s'.enterFrame key'.function).1
              modifyGet (·.popCall key' ty)) (Typed P) := by
      have at_ : P.At st₂ (s.function key.function).node (s'.function key'.function).node
          (s.enterFrame key.function).1
          (s'.enterFrame key'.function).1 := ⟨record.node.mono later₂.links, frame⟩
      refine .bind (bindParams_mirrors reflects twin₂ at_ params args) fun later₃ twin₃ _ => ?_
      refine .update (.bind (visitOption_mirrors reflects (twin₃.pushCall same) (at_.mono later₃) body) ?_)
      intro st₄ v v' ty ty' _ twin₄ typed
      refine .modifyGet fun _ => ?_
      obtain ⟨popped, result⟩ := twin₄.popCall same typed
      exact ⟨st₄, st₄.le_refl, popped, result⟩
    split
    · have self := twin₁.selfNode_twin (record.node.mono later₁.links) locator
      have bound := (twin₁.bind frame .object selfName self
        ((s.enterFrame key.function).2.span (s.function key.function).node) .scope
        received).2
      refine .update ?_
      rw [twin₁.span_eq (record.node.mono later₁.links)]
      exact goOn later₁ bound frame
    · exact goOn later₁ twin₁ frame
  · exact .pure twin .unknown

theorem apply_mirrors {id id' : FunctionId} (known : P.FunctionTwin id id')
    (received : P.TyTwin receiver receiver') (args : CallTwin P call call') :
    Mirrors P st s s' (apply told id receiver call) (apply visit id' receiver' call') (Typed P) := by
  have key := callKey_twin known received args
  have marked := twin.markCalled known
  unfold apply
  refine .update (.get ?_)
  rw [marked.refuses_eq key]
  split
  · exact .pure marked .unknown
  · rename_i granted
    exact enter_mirrors reflects marked key (refuses_eq_false (Bool.eq_false_iff.mpr granted)).1 received args

theorem applyAll_mirrors {callee callee' receiver receiver' : Ty} (called : P.TyTwin callee callee')
    (received : P.TyTwin receiver receiver') (args : CallTwin P call call') :
    Mirrors P st s s' (applyAll told callee receiver call) (applyAll visit callee' receiver' call')
      (Typed P) := by
  have functions : List.Forall₂ P.FunctionTwin callee.functions callee'.functions :=
    called.functions.imp fun _ _ known => ⟨known.1, known.2⟩
  unfold applyAll
  refine .result (.mapM functions twin fun id id' known st₁ t t' _ after => ?_) .makeUnion
  exact apply_mirrors reflects after known received args

theorem applyBlock_mirrors (scope : P.ScopeTwin st.scopes i i') {args args' : List Ty}
    (typed : List.Forall₂ P.TyTwin args args') :
    Mirrors P st s s' (applyBlock told i args) (applyBlock visit i' args') (Typed P) := by
  unfold applyBlock
  refine .get ?_
  rw [scope.eq, twin.scopes.lookup?_eq]
  cases s.scopes.lookup? i blockName .object with
  | none => exact .pure twin .unknown
  | some ids => exact applyAll_mirrors reflects twin (twin.typeOf_twin ids) .unknown ⟨typed, .nil,
      .none, .none⟩

theorem construct_mirrors (args : CallTwin P call call') {cs cs' : List ClassId}
    (classes : List.Forall₂ (ClassTwin P) cs cs') :
    Mirrors P st s s' (construct told call cs) (construct visit call' cs') fun _ =>
      List.Forall₂ P.TyTwin := by
  induction classes generalizing st s s' with
  | nil => exact .pure twin .nil
  | @cons c c' cs cs' first _ ih =>
    obtain ⟨rfl, spoken⟩ := first
    have made : P.TyTwin (.inst c) (.inst (c + P.offsets.classes)) := .inst spoken
    have goOn {st₁ : Stage} {t t' : Session} (after : Session.Twin P st₁ t t') :
        Mirrors P st₁ t t' (do return .inst c :: (← construct told call cs))
          (do return .inst (c + P.offsets.classes) :: (← construct visit call' cs'))
            (fun _ => List.Forall₂ P.TyTwin) :=
      (ih after).result fun others => .cons made others
    unfold construct
    refine .get ?_
    rw [twin.lookupMember?_eq made]
    cases s.lookupMember? (.inst c) "initialize" with
    | none => exact goOn twin
    | some ids =>
      refine .bind (applyAll_mirrors reflects twin (twin.typeOf_twin ids) made args).discard ?_
      exact fun _ after _ => goOn after

theorem callMember_mirrors (received : P.TyTwin receiver receiver') (name : String)
    (attr : NodeRef.Twin P.toFrame st.links n n') (args : CallTwin P call call') :
    Mirrors P st s s' (callMember told receiver name n call)
      (callMember visit receiver' name n' call') (Typed P) := by
  unfold callMember
  rw [isEmpty_eq (classesOf_twin received), isEmpty_eq received.functions]
  split
  · exact (construct_mirrors reflects twin args (classesOf_twin received)).result .makeUnion
  · split
    · exact applyAll_mirrors reflects twin received .unknown args
    · refine .get ?_
      rw [twin.lookupMember?_eq received]
      cases s.lookupMember? receiver name with
      | none => exact .pure twin .unknown
      | some ids =>
        have referred := twin.refer attr ids
        refine .update (.get ?_)
        rw [referred.isCallable_eq]
        split
        · exact applyAll_mirrors reflects referred (referred.typeOf_twin ids) received args
        · exact .pure referred (referred.typeOf_twin ids)

section

include at_

/-! ## Definitions -/

theorem withStatic_mirrors (on : Bool) (body : Option NodeId) :
    Mirrors P st s s' (withStatic told on n body i) (withStatic visit on n' body i') (Typed P) := by
  unfold withStatic
  refine .get (.update ?_)
  rw [twin.staticContext]
  refine .bind (visitOption_mirrors reflects (twin.setStatic on) at_ body) fun _ after typed => ?_
  exact .update (.pure (after.setStatic s.staticContext) typed)

theorem definitionScope_mirrors (locator : NodeId) :
    Mirrors P st s s' (definitionScope told n locator i) (definitionScope visit n' locator i')
      fun st => P.ScopeTwin st.scopes := by
  unfold definitionScope
  refine .get ?_
  rw [twin.kind_eq (at_.sibling locator).node]
  split
  · rename_i target _ _
    refine .bind (reflects twin (at_.sibling target)) fun later after typed => .get ?_
    exact .pure after (after.memberScope_twin typed (at_.mono later).scope)
  · exact .pure twin at_.scope

theorem definedBody_mirrors {m m' : NodeRef} (nameNode : NodeRef.Twin P.toFrame st.links m m')
    (name : String) (kind : BindingKind)
    (body : Option NodeId) {outer outer' : ScopeId} (around : P.ScopeTwin st.scopes outer outer')
    (typed : P.TyTwin ty ty') :
    Mirrors P st s s'
      (do modify (·.bindDefinition outer i name n m kind ty)
          discard (withStatic told false n body i)
          return ty)
      (do modify (·.bindDefinition outer' i' name n' m' kind ty')
          discard (withStatic visit false n' body i')
          return ty') (Typed P) := by
  have bound := twin.bindDefinition around at_.scope name at_.node nameNode kind typed
  exact .update ((withStatic_mirrors reflects bound at_ false body).discard.result fun _ => typed)

theorem defineModule_mirrors (locator : NodeId) (body : Option NodeId) :
    Mirrors P st s s' (defineModule told n locator body i) (defineModule visit n' locator body i')
      (Typed P) := by
  have named := twin.nameNode?_rel at_.node locator
  unfold defineModule
  refine .get ?_
  generalize s.nameNode? n locator = x, s'.nameNode? n' locator = y at named
  cases named with
  | none =>
    exact (visitOption_mirrors reflects twin at_ body).discard.result fun _ => .nil
  | @some nameNode nameNode' named =>
    refine .get ?_
    rw [twin.nameOf?_eq named]
    cases s.nameOf? nameNode with
    | none => exact .pure twin .nil
    | some name =>
      dsimp only
      split
      · exact (withStatic_mirrors reflects twin at_ true body).discard.result fun _ => .nil
      · refine .bind (definitionScope_mirrors reflects twin at_ locator)
          fun {_ t t' outer outer'} later₁ twin₁ around => ?_
        have qname : t'.scopes.qualify outer' name = t.scopes.qualify outer name := by
          rw [around.eq, twin₁.scopes.qualify_eq]
        refine .updateGet (M := fun _ m m' => m' = m + P.offsets.modules ∧ P.vocabulary.moduleObj m)
          (fun ok => ?_) ?_
        · rw [qname]
          exact twin₁.moduleFor name _ around ok
        · intro st₂ later₂ twin₂ made
          rw [qname] at twin₂ made ⊢
          rw [made.1]
          have later := Stage.le_trans later₁ later₂
          have inner := (twin₂.moduleRecord_twin
            (t.moduleFor name (t.scopes.qualify outer name) outer).1).scope
          refine .get (definedBody_mirrors reflects twin₂ ⟨(at_.mono later).node, inner⟩
            (named.mono later.links) name .moduleDef
            body (around.mono later₂.scopes) (.moduleObj made.2))

theorem baseClass_mirrors (base : Option NodeId) :
    Mirrors P st s s' (baseClass told n base i) (baseClass visit n' base i') fun _ c c' =>
      c' = c.map (· + P.offsets.classes) := by
  cases base with
  | none => exact .pure twin rfl
  | some id =>
    refine .bind (reflects twin (at_.sibling id)) fun {_ _ _ ty ty'} _ after typed => .pure after ?_
    have classes := classesOf_twin typed
    generalize classesOf ty = cs, classesOf ty' = cs' at classes
    cases classes with
    | nil => rfl
    | cons first _ => exact congrArg some first.eq

theorem defineClass_mirrors (locator : NodeId) (base body : Option NodeId) :
    Mirrors P st s s' (defineClass told n locator base body i)
      (defineClass visit n' locator base body i') (Typed P) := by
  unfold defineClass
  refine .bind (baseClass_mirrors reflects twin at_ base) fun {_ s s' base _} later₀ twin extended => .get ?_
  subst extended
  replace at_ := at_.mono later₀
  have named := twin.nameNode?_rel at_.node locator
  generalize s.nameNode? n locator = x, s'.nameNode? n' locator = y at named
  cases named with
  | none =>
    exact (visitOption_mirrors reflects twin at_ body).discard.result fun _ => .nil
  | @some nameNode nameNode' named =>
    refine .get ?_
    rw [twin.nameOf?_eq named]
    cases s.nameOf? nameNode with
    | none => exact .pure twin .nil
    | some name =>
      refine .bind (definitionScope_mirrors reflects twin at_ locator)
        fun {_ t t' outer outer'} later₁ twin₁ around => ?_
      have qname : t'.scopes.qualify outer' name = t.scopes.qualify outer name := by
        rw [around.eq, twin₁.scopes.qualify_eq]
      refine .updateGet (M := fun _ c c' => c' = c + P.offsets.classes ∧ P.vocabulary.classObj c)
        (fun ok => ?_) ?_
      · rw [qname]
        exact twin₁.classFor name _ around ok
      · intro st₂ later₂ twin₂ made
        rw [qname] at twin₂ made ⊢
        rw [made.1]
        have later := Stage.le_trans later₁ later₂
        have based := twin₂.setBase (t.classFor name (t.scopes.qualify outer name) outer).1 base
        have inner := (based.classRecord_twin (t.classFor name (t.scopes.qualify outer name) outer).1).scope
        refine .update (.get ?_)
        exact definedBody_mirrors reflects based ⟨(at_.mono later).node, inner⟩
          (named.mono later.links) name .classDef body
          (around.mono later₂.scopes) (.classObj made.2)

theorem methodScope_mirrors (locator : NodeId) :
    Mirrors P st s s' (methodScope told n locator i) (methodScope visit n' locator i')
      fun st a b => P.ScopeTwin st.scopes a.1 b.1 ∧ b.2 = a.2 := by
  unfold methodScope
  refine .get ?_
  rw [twin.kind_eq (at_.sibling locator).node]
  split
  · rename_i target _ _
    refine .get ?_
    rw [twin.nameOf?_eq (at_.sibling target).node]
    split
    · exact .pure twin ⟨at_.scope, rfl⟩
    · refine .bind (reflects twin (at_.sibling target)) fun later after typed => .get ?_
      exact .pure after ⟨after.memberScope_twin typed (at_.mono later).scope, rfl⟩
  · exact .pure twin ⟨at_.scope, rfl⟩

theorem defineFunction_mirrors (locator : Option NodeId) (isLambda : Bool) :
    Mirrors P st s s' (defineFunction told n locator isLambda i)
      (defineFunction visit n' locator isLambda i') (Typed P) := by
  unfold defineFunction
  cases locator with
  | none =>
    refine .updateGet (M := fun _ => P.FunctionTwin) (fun ok => ?_) fun st₁ _ twin₁ made => ?_
    · obtain ⟨after, made⟩ := twin.functionFor at_.node "lambda" at_.scope .none false true ok
      exact ⟨st, st.le_refl, after, made⟩
    · have waits := twin₁.addUncalled made
      exact .update (.pure waits made.ty)
  | some locator =>
    have named := twin.nameNode?_rel at_.node locator
    refine .get ?_
    generalize s.nameNode? n locator = x, s'.nameNode? n' locator = y at named
    cases named with
    | none => exact .pure twin .unknown
    | @some nameNode nameNode' named =>
      refine .get ?_
      rw [twin.nameOf?_eq named]
      cases s.nameOf? nameNode with
      | none => exact .pure twin .unknown
      | some name =>
        refine .bind (methodScope_mirrors reflects twin at_ locator)
          fun {st₁ t _ land land'} later₁ twin₁ landed => ?_
        obtain ⟨target, onReceiver⟩ := land
        obtain ⟨target', onReceiver'⟩ := land'
        obtain ⟨place, same⟩ := landed
        dsimp only at place same
        subst same
        have owned := twin₁.ownerOf?_rel target
        rw [← place.eq] at owned
        refine .get ?_
        dsimp only
        rw [twin₁.staticContext, functionKind_eq owned]
        refine .updateGet (M := fun _ => P.FunctionTwin) (fun ok => ?_) fun st₂ later₂ twin₂ made => ?_
        · obtain ⟨after, made⟩ := twin₁.functionFor (at_.mono later₁).node name place owned _ isLambda ok
          exact ⟨st₁, st₁.le_refl, after, made⟩
        · have later := Stage.le_trans later₁ later₂
          refine .update ?_
          rw [twin₂.span_eq (at_.mono later).node]
          have bound := (twin₂.bind (place.mono later₂.scopes)
            (if onReceiver' || t.staticContext then .ofClass else .object) name
            (named.mono later.links)
            ((t.functionFor n name target (t.ownerOf? target) (onReceiver' || t.staticContext)
              isLambda).2.span n)
            (functionKind (t.ownerOf? target) (onReceiver' || t.staticContext)) made.ty).2
          exact .update (.pure (bound.addUncalled made) made.ty)

/-! ## Calls -/

theorem visitAll_mirrors (ids : List NodeId) :
    Mirrors P st s s' (visitAll told n ids i) (visitAll visit n' ids i') fun _ => List.Forall₂ P.TyTwin := by
  refine .mapEach twin fun id later after => ?_
  exact reflects after ((at_.mono later).sibling id)

theorem requireAll_mirrors (args : List NodeId) (force : Bool) :
    Mirrors P st s s' (requireAll told n args force i) (requireAll visit n' args force i') (Typed P) := by
  unfold requireAll
  refine .bind (visitAll_mirrors reflects twin at_ args) fun {_ _ _ targets _} _ twin₁ typed => ?_
  obtain ⟨same, spoken⟩ := stringLiterals_eq typed
  rw [same]
  have words : List.Forall₂ (fun w w' => w = w' ∧ P.vocabulary.text w) (targets.flatMap Ty.stringLiterals)
      (targets.flatMap Ty.stringLiterals) := List.forall₂_same.mpr fun w mem => ⟨rfl, spoken w mem⟩
  refine .result (.forM words twin₁ fun w w' word st₂ u u' _ after => ?_) fun _ => .bool
  obtain ⟨rfl, spoken⟩ := word
  exact require_mirrors reflects after spoken force

omit reflects in
theorem declareAccessors_mirrors (args : List NodeId) :
    Mirrors P st s s' (declareAccessors n args i) (declareAccessors n' args i') (Typed P) := by
  have own := twin.selfClass?_rel i
  rw [← at_.scope.eq] at own
  unfold declareAccessors
  refine .get ?_
  generalize s.selfClass? i = x, s'.selfClass? i' = y at own
  cases own with
  | none => exact .pure twin .nil
  | @some c c' moved =>
    subst moved
    have table := (twin.classRecord_twin c).instances
    refine .get (.result (.forEach twin fun id later after => ?_) fun _ => .nil)
    exact .modify (after.declareAttribute (table.mono later.scopes) ((at_.mono later).sibling id).node)

theorem mixIn_mirrors (args : List NodeId) :
    Mirrors P st s s' (mixIn told n args i) (mixIn visit n' args i') (Typed P) := by
  unfold mixIn
  refine .bind (visitAll_mirrors reflects twin at_ args) fun {_ t t' _ _} _ twin₁ typed => .get ?_
  have owned := twin₁.enclosingOwner?_rel i
  rw [← at_.scope.eq] at owned
  generalize t.enclosingOwner? i = x, t'.enclosingOwner? i' = y at owned
  cases owned with
  | none => exact .pure twin₁ .nil
  | some owned =>
    refine .result (.forM (modulesOf_twin typed) twin₁ fun m m' moved st₂ u u' _ after => ?_) fun _ => .nil
    subst moved
    exact .modify (after.addMixin owned m)

theorem specialForm_mirrors (name : String) (args : List NodeId) (block : Option NodeId) :
    Mirrors P st s s' (specialForm told n name args block i)
      (specialForm visit n' name args block i') fun _ => Option.Rel P.TyTwin := by
  unfold specialForm
  refine .get ?_
  rw [at_.scope.eq, twin.lookupName?_eq, Option.isSome_map, ← at_.scope.eq]
  split
  · exact .pure twin .none
  · split
    · exact .pure twin .none
    · exact (requireAll_mirrors reflects twin at_ args _).result .some
    · exact (declareAccessors_mirrors twin at_ args).result .some
    · exact (mixIn_mirrors reflects twin at_ args).result .some
    · exact optionVisit_mirrors reflects twin at_ block

theorem visitKeywords_mirrors (ids : List NodeId) :
    Mirrors P st s s' (visitKeywords told n ids i) (visitKeywords visit n' ids i') fun _ =>
      KeywordsTwin P := by
  refine .mapEach twin fun id later after => .get ?_
  have part := (at_.mono later).sibling id
  rw [keywordName_eq after part.node]
  exact (reflects after part).result fun typed => ⟨rfl, typed⟩

theorem callArgs_mirrors (args keywords : List NodeId) (star block : Option NodeId) :
    Mirrors P st s s' (callArgs told n args keywords star block i)
      (callArgs visit n' args keywords star block i') fun _ => CallTwin P := by
  unfold callArgs
  refine .bind (visitAll_mirrors reflects twin at_ args) fun later₁ twin₁ positional => ?_
  replace at_ := at_.mono later₁
  refine .bind (visitKeywords_mirrors reflects twin₁ at_ keywords) fun later₂ twin₂ named => ?_
  replace at_ := at_.mono later₂
  refine .bind (optionVisit_mirrors reflects twin₂ at_ star) fun later₃ twin₃ splat => ?_
  exact (optionVisit_mirrors reflects twin₃ (at_.mono later₃) block).result fun given =>
    ⟨positional, named, splat, given⟩

theorem callTarget_mirrors (args : CallTwin P call call') :
    Mirrors P st s s' (callTarget told n call i) (callTarget visit n' call' i') (Typed P) := by
  unfold callTarget
  refine .get ?_
  rw [twin.kind_eq at_.node]
  split
  · rename_i target attr _
    refine .bind (reflects twin (at_.sibling target)) fun later after typed => .get ?_
    have part := ((at_.mono later).sibling attr).node
    rw [after.nameOf?_eq part]
    split
    · exact .pure after .unknown
    · exact callMember_mirrors reflects after typed _ part args
  · rename_i written
    refine .bind (reference_mirrors reflects twin at_ written) fun _ after typed => .get ?_
    exact applyAll_mirrors reflects after typed.1 (at_.scope.eq ▸ after.selfType_twin i) args
  · refine .bind (reflects twin at_) fun _ after typed => .get ?_
    exact applyAll_mirrors reflects after typed (at_.scope.eq ▸ after.selfType_twin i) args

theorem callNode_mirrors (func : NodeId) (args keywords : List NodeId) (star block : Option NodeId) :
    Mirrors P st s s' (callNode told n func args keywords star block i)
      (callNode visit n' func args keywords star block i') (Typed P) := by
  have ordinary {st₁ : Stage} {t t' : Session} (later : st ≤ st₁) (after : Session.Twin P st₁ t t') :
      Mirrors P st₁ t t'
        (do callTarget told (n.sibling func) (← callArgs told n args keywords star block i) i)
        (do callTarget visit (n'.sibling func) (← callArgs visit n' args keywords star block i') i')
          (Typed P) := by
    refine .bind (callArgs_mirrors reflects after (at_.mono later) args keywords star block) ?_
    exact fun further last given =>
      callTarget_mirrors reflects last ((at_.mono (Stage.le_trans later further)).sibling func) given
  unfold callNode
  refine .get ?_
  rw [twin.kind_eq (at_.sibling func).node]
  dsimp only
  split
  · refine .bind (specialForm_mirrors reflects twin at_ _ args block) fun later after found => ?_
    cases found with
    | some typed => exact .pure after typed
    | none => exact ordinary later after
  · refine .bind (M := fun _ special special' => special = none ∧ special' = none) (.pure twin ⟨rfl, rfl⟩) ?_
    rintro _ _ _ _ _ later after ⟨rfl, rfl⟩
    exact ordinary later after

/-! ## Nodes -/

theorem inferBlock_mirrors (stmts : List NodeId) {last last' : Ty} (typed : P.TyTwin last last') :
    Mirrors P st s s' (inferBlock told n i stmts last) (inferBlock visit n' i' stmts last') (Typed P) := by
  induction stmts generalizing st s s' last last' with
  | nil => exact .pure twin typed
  | cons id stmts ih =>
    refine .bind (reflects twin (at_.sibling id)) fun later after typed => ?_
    exact ih after (at_.mono later) typed

theorem inferName_mirrors (written : s.kind n = .name id kind) :
    Mirrors P st s s' (inferName told n id kind i) (inferName visit n' id kind i') (Typed P) := by
  unfold inferName
  refine .bind (reference_mirrors reflects twin at_ written) fun {_ _ _ result result'} _ after found => ?_
  obtain ⟨ty, callable⟩ := result
  obtain ⟨ty', callable'⟩ := result'
  obtain ⟨typed, same⟩ := found
  dsimp only at typed same ⊢
  rw [same]
  split
  · exact .get (applyAll_mirrors reflects after typed (at_.scope.eq ▸ after.selfType_twin i) .none)
  · exact .pure after typed

theorem inferMember_mirrors (target attr : NodeId) :
    Mirrors P st s s' (inferMember told n target attr i) (inferMember visit n' target attr i') (Typed P) := by
  unfold inferMember
  refine .bind (reflects twin (at_.sibling target)) fun later after typed => .get ?_
  have part := ((at_.mono later).sibling attr).node
  rw [after.nameOf?_eq part]
  split
  · exact .pure after .unknown
  · exact callMember_mirrors reflects after typed _ part .none

theorem inferElement_mirrors (id : NodeId) :
    Mirrors P st s s' (inferElement told n i id) (inferElement visit n' i' id) (Typed P) := by
  unfold inferElement
  refine .bind (reflects twin (at_.sibling id)) fun {_ t _ ty _} later after typed => .get ?_
  rw [after.kind_eq ((at_.mono later).sibling id).node]
  obtain ⟨rfl, within⟩ := typed
  have whole : P.TyTwin ty (ty.shift P.offsets) := ⟨rfl, within⟩
  generalize t.kind (n.sibling id) = kind
  cases kind with
  | starred value =>
    cases ty with
    | list elem literals =>
      simp only [Ty.Within] at within
      simp only [Ty.shift]
      exact .pure after ⟨rfl, within.1⟩
    | _ =>
      simp only [Ty.shift] at whole ⊢
      exact .pure after whole
  | _ => exact .pure after whole

theorem inferElements_mirrors (ids : List NodeId) :
    Mirrors P st s s' (ids.mapM (inferElement told n i)) (ids.mapM (inferElement visit n' i'))
      fun _ => List.Forall₂ P.TyTwin := by
  refine .mapEach twin fun id later after => ?_
  exact inferElement_mirrors reflects after (at_.mono later) id

theorem visitKnown_mirrors (child : Option NodeId) :
    Mirrors P st s s' (visitKnown told n child i) (visitKnown visit n' child i') (Typed P) := by
  cases child with
  | none => exact .pure twin .unknown
  | some id => exact reflects twin (at_.sibling id)

theorem inferGuarded_mirrors (body rescue orelse ensure : Option NodeId) :
    Mirrors P st s s' (inferGuarded told n body rescue orelse ensure i)
      (inferGuarded visit n' body rescue orelse ensure i') (Typed P) := by
  unfold inferGuarded
  refine .bind (visitOption_mirrors reflects twin at_ body) fun later₁ twin₁ main => ?_
  replace at_ := at_.mono later₁
  refine .bind (visitKnown_mirrors reflects twin₁ at_ rescue) fun later₂ twin₂ rescued => ?_
  replace at_ := at_.mono later₂
  refine .bind (visitKnown_mirrors reflects twin₂ at_ orelse) fun later₃ twin₃ other => ?_
  refine (visitOption_mirrors reflects twin₃ (at_.mono later₃) ensure).discard.result fun _ => ?_
  exact .known (.cons main (.cons rescued (.cons other .nil)))

theorem inferHandler_mirrors (exceptions : List NodeId) (binder body orelse : Option NodeId) :
    Mirrors P st s s' (inferHandler told n exceptions binder body orelse i)
      (inferHandler visit n' exceptions binder body orelse i') (Typed P) := by
  unfold inferHandler
  refine .bind (visitAll_mirrors reflects twin at_ exceptions) fun later₁ twin₁ classes => ?_
  replace at_ := at_.mono later₁
  refine .bind (.optionEach twin₁ fun id =>
    bindTarget_mirrors reflects twin₁ (at_.sibling id) (.caught classes) .variable)
    fun later₂ twin₂ _ => ?_
  replace at_ := at_.mono later₂
  refine .bind (visitOption_mirrors reflects twin₂ at_ body) fun later₃ twin₃ main => ?_
  refine (visitKnown_mirrors reflects twin₃ (at_.mono later₃) orelse).result fun other => ?_
  exact .known (.cons main (.cons other .nil))

theorem yieldArgs_mirrors (value : Option NodeId) :
    Mirrors P st s s' (yieldArgs told n value i) (yieldArgs visit n' value i') fun _ =>
      List.Forall₂ P.TyTwin := by
  unfold yieldArgs
  cases value with
  | none => exact .pure twin .nil
  | some id =>
    refine .get ?_
    rw [twin.kind_eq (at_.sibling id).node]
    split
    · exact visitAll_mirrors reflects twin at_ _
    · exact (reflects twin (at_.sibling id)).result fun typed => .cons typed .nil

theorem after_mirrors (child : Option NodeId) (typed : P.TyTwin ty ty') :
    Mirrors P st s s' (do discard (visitOption told n child i); return ty)
      (do discard (visitOption visit n' child i'); return ty') (Typed P) :=
  (visitOption_mirrors reflects twin at_ child).discard.result fun _ => typed

theorem inferNode_mirrors : Mirrors P st s s' (inferNode told n i) (inferNode visit n' i') (Typed P) := by
  unfold inferNode
  refine .get ?_
  rw [twin.kind_eq at_.node]
  generalize meaning : s.kind n = kind
  cases kind with
  | block stmts => exact inferBlock_mirrors reflects twin at_ stmts .nil
  | moduleDef locator body _ => exact defineModule_mirrors reflects twin at_ locator body
  | classDef locator base body isStatic _ =>
    dsimp only
    split
    · exact (withStatic_mirrors reflects twin at_ true body).discard.result fun _ => .nil
    · exact defineClass_mirrors reflects twin at_ locator base body
  | function locator _ _ isLambda _ => exact defineFunction_mirrors reflects twin at_ locator isLambda
  | call func args keywords star block =>
    exact callNode_mirrors reflects twin at_ func args keywords star block
  | member target attr => exact inferMember_mirrors reflects twin at_ target attr
  | binary op left right =>
    refine .bind (reflects twin (at_.sibling left)) fun later after first => ?_
    exact (reflects after ((at_.mono later).sibling right)).result fun second => .binary op first second
  | unary op operand =>
    exact (reflects twin (at_.sibling operand)).result fun typed => .unary op typed
  | assign target value =>
    refine .bind (reflects twin (at_.sibling value)) fun later after typed => ?_
    exact (bindTarget_mirrors reflects after ((at_.mono later).sibling target) typed
      .variable).result fun _ => typed
  | name id kind => exact inferName_mirrors reflects twin at_ meaning
  | symbol id => exact .pure twin (.symbol _)
  | str value =>
    refine .pure twin (.str fun w written => ?_)
    cases written
    exact (twin.speaks at_.node).1 value meaning
  | strEmbed value => exact after_mirrors reflects twin at_ value (.str (by simp))
  | regexp pattern stop =>
    refine .bind (visitOption_mirrors reflects twin at_ pattern).discard fun later after _ => ?_
    exact after_mirrors reflects after (at_.mono later) stop .unknown
  | int _ => exact .pure twin .num
  | float _ => exact .pure twin .num
  | array elts =>
    exact (inferElements_mirrors reflects twin at_ elts).result .ofElements
  | dict keys values =>
    refine .bind (visitAll_mirrors reflects twin at_ keys) fun later after first => ?_
    exact (visitAll_mirrors reflects after (at_.mono later) values).result fun second =>
      .dict (.makeUnion first) (.makeUnion second)
  | starred value => exact reflects twin (at_.sibling value)
  | keyword _ value => exact visitOption_mirrors reflects twin at_ value
  | branch test body orelse =>
    refine .bind (reflects twin (at_.sibling test)).discard fun later₁ twin₁ _ => ?_
    replace at_ := at_.mono later₁
    refine .bind (visitOption_mirrors reflects twin₁ at_ body) fun later₂ twin₂ yes => ?_
    exact (visitOption_mirrors reflects twin₂ (at_.mono later₂) orelse).result fun no => yes.either no
  | loop test body =>
    refine .bind (reflects twin (at_.sibling test)).discard fun later after _ => ?_
    exact after_mirrors reflects after (at_.mono later) body .nil
  | each target iter body =>
    refine .bind (reflects twin (at_.sibling iter)) fun later₁ twin₁ typed => ?_
    replace at_ := at_.mono later₁
    refine .bind (bindTarget_mirrors reflects twin₁ (at_.sibling target) typed.iterated .variable) ?_
    exact fun later₂ twin₂ _ => after_mirrors reflects twin₂ (at_.mono later₂) body typed
  | guarded body rescue orelse ensure =>
    exact inferGuarded_mirrors reflects twin at_ body rescue orelse ensure
  | handler exceptions binder body orelse =>
    exact inferHandler_mirrors reflects twin at_ exceptions binder body orelse
  | ret value =>
    refine .bind (visitOption_mirrors reflects twin at_ value) fun _ after typed => ?_
    exact .update (.pure (after.addReturn typed) typed)
  | yield value =>
    refine .bind (yieldArgs_mirrors reflects twin at_ value) fun later after typed => ?_
    exact applyBlock_mirrors reflects after (at_.mono later).scope typed
  | subscript value slot =>
    refine .bind (reflects twin (at_.sibling value)) fun later₁ twin₁ typed => ?_
    replace at_ := at_.mono later₁
    refine .bind (visitOption_mirrors reflects twin₁ at_ slot).discard fun later₂ twin₂ _ => .get ?_
    rw [isSlice_eq twin₂ (at_.mono later₂)]
    exact .pure twin₂ (typed.subscripted _)
  | index value => exact reflects twin (at_.sibling value)
  | slice lower upper =>
    refine .bind (visitOption_mirrors reflects twin at_ lower).discard fun later after _ => ?_
    exact after_mirrors reflects after (at_.mono later) upper .unknown
  | control _ => exact .pure twin .nil
  | undef _ => exact .pure twin .nil
  | void => exact .pure twin .nil

end

end Parts

/-! ## The recursion -/

theorem Mirrors.visiting {x : Told α} {y : Analysis β} {post : Stage → α → β → Prop}
    (node : NodeRef) (scope : ScopeId) (next : Mirrors P st s s' x y post) :
    Mirrors P st s s' (do Told.visiting node scope; x) y post := by
  intro ok
  replace ok : ∀ m ∈ through (Event.visit node scope s :: (x s).2.2), P.ok m := ok
  rw [through_cons, List.forall_mem_append] at ok
  exact next ok.2

theorem tell_mirrors (levels : Nat) : Reflects P (tell levels) (infer levels) := by
  induction levels with
  | zero =>
    intro st s s' n n' i i' twin _
    unfold tell infer
    exact .visiting n _ (.update (.pure (twin.setExhausted true) .unknown))
  | succ levels ih =>
    intro st s s' n n' i i' twin at_
    unfold tell infer
    refine .visiting n _ (.get ?_)
    rw [twin.exhausted]
    split
    · exact .pure twin .unknown
    · refine .update ?_
      rw [twin.depth]
      refine .bind (inferNode_mirrors ih (twin.setDepth (s.depth + 1)) at_)
        fun {_ t _ _ _} _ after typed => ?_
      refine .update ?_
      rw [after.depth]
      exact .pure (after.setDepth (t.depth - 1)) typed

end Analysis

end RubyInfer
