import RubyInfer.Proofs.Session.Reachable
import RubyInfer.Proofs.Store.Definition
import RubyInfer.Proofs.Ty.Canonical

/-!
# Types stay canonical

Every type that a session holds is canonical, and inference comes to canonical types only. Types are
made in many places; what all of them have in common is that they ask no more of a property of types
than `Ty.Closed` says, so being canonical is kept by every run. To speak of the sessions on the way,
`inferWatched` looks at the session when a visit begins and when it ends, and at the type that the
visit comes to, and does anything else in place of going on if one of them is not canonical: it does
the same as `infer`.
-/

namespace RubyInfer

def Regime.canonical : Regime := ⟨Ty.Canonical, Ty.canonical_closed, False, True⟩

namespace Session

/-- The types of bindings, what functions have returned, what the calls under way have returned so
far, and the types by which these calls are known. -/
structure Canonical (s : Session) : Prop where
  bindings : ∀ e ∈ s.registry.all, e.2.ty.Canonical
  functions : ∀ f ∈ s.functions, f.ret.Canonical
  returns : ∀ ty ∈ s.returns, ty.Canonical
  keys : ∀ key ∈ s.callStack, key.receiver.Canonical ∧ ∀ ty ∈ key.args, ty.Canonical

theorem canonical_iff {s : Session} :
    s.Canonical ↔ (∀ e ∈ s.registry.all, e.2.ty.Canonical) ∧ (∀ f ∈ s.functions, f.ret.Canonical) ∧
      (∀ ty ∈ s.returns, ty.Canonical) ∧ ∀ key ∈ s.callStack, key.receiver.Canonical ∧
      ∀ ty ∈ key.args, ty.Canonical :=
  ⟨fun ⟨bindings, functions, returns, keys⟩ => ⟨bindings, functions, returns, keys⟩,
    fun ⟨bindings, functions, returns, keys⟩ => ⟨bindings, functions, returns, keys⟩⟩

instance : DecidablePred Canonical := fun _ => decidable_of_iff _ canonical_iff.symm

variable {s : Session}

theorem canonical_iff_sound : s.Canonical ↔ s.Sound .canonical := by
  constructor
  · intro canonical
    exact {
      bindings := fun live => canonical.bindings _ (Registry.mem_all.mpr live)
      functions := fun here => ⟨canonical.functions _ (Array.mem_of_getElem? here), fun _ _ asked =>
        asked.elim⟩
      classes := fun _ => ⟨fun asked => asked.elim, fun asked => asked.elim⟩
      modules := fun _ asked => asked.elim
      returns := fun mem => canonical.returns _ mem
      keys := fun mem => canonical.keys _ mem
      global := fun asked => asked.elim }
  · intro sound
    refine ⟨fun e mem => sound.bindings (Registry.mem_all.mp mem), fun f mem => ?_, fun ty mem =>
      sound.returns mem,
      fun key mem => sound.keys mem⟩
    obtain ⟨id, inRange, rfl⟩ := Array.getElem_of_mem mem
    exact (sound.functions (Array.getElem?_eq_getElem inRange)).1

end Session

namespace Analysis

open Session

def watched (otherwise visit : Visit) : Visit := fun node scope => do
  if (← get).Canonical then
    let ty ← visit node scope
    if ty.Canonical ∧ (← get).Canonical then return ty else otherwise node scope
  else otherwise node scope

def inferWatched (otherwise : Visit) : (levels : Nat) → Visit
  | 0 => watched otherwise (infer 0)
  | levels + 1 => watched otherwise fun node scope => do
    if (← get).exhausted then return .unknown
    modify fun s => { s with depth := s.depth + 1 }
    let ty ← inferNode (inferWatched otherwise levels) node scope
    modify fun s => { s with depth := s.depth - 1 }
    return ty

variable {s : Session} {room : Room} {visit other : Visit}

theorem watched_follows (follows : Follows .canonical room visit other) (otherwise : Visit) :
    Follows .canonical room visit (watched otherwise other) := by
  intro s node scope ready there
  obtain ⟨same, run, typed⟩ := follows node ready there
  refine ⟨?_, run, typed⟩
  have begins : s.Canonical := canonical_iff_sound.mpr ready.sound
  have ends : ((visit node scope).run s).2.Canonical := canonical_iff_sound.mpr (run.sound ready.sound)
  unfold watched
  rw [run_get, if_pos begins, run_bind same, run_get, if_pos ⟨typed, ends⟩]
  rfl

theorem inferWatched_follows (start : Session) (otherwise : Visit) (levels : Nat) :
    Follows .canonical ⟨start, levels⟩ (infer levels) (inferWatched otherwise levels) := by
  induction levels with
  | zero =>
    refine watched_follows (fun node scope ready there => ?_) otherwise
    exact .update (.exhaust trivial) (.pure Ty.canonical_closed.unknown)
  | succ levels ih =>
    refine watched_follows (fun {s} node scope ready there => ?_) otherwise
    unfold infer
    refine .get ?_
    split
    · exact .pure Ty.canonical_closed.unknown
    · rename_i going
      obtain ⟨same, run, typed⟩ := inferNode_does ih ready.deeper there node
      have closed := congrArg (fun r : Ty × Session =>
        (r.1, ({ r.2 with depth := r.2.depth - 1 } : Session))) same
      exact ⟨closed, .visit (Bool.eq_false_iff.mpr going) run, typed⟩

end Analysis

namespace Session

open Analysis

/-- **Types stay canonical.** They are so between operations. Every call from a session whose types
are canonical comes to a canonical type, if to any, and leaves such a session, and so does every
visit on the way. -/
theorem types_canonical :
    (∀ s, Reachable s → s.Canonical) ∧
    ∀ (s : Session) (c : Call), s.Canonical → c.Fits .canonical s →
      let done := (c.perform (infer (s.options.maxDepth - s.depth))).run s
      (∀ ty, done.1 = some ty → ty.Canonical) ∧ done.2.Canonical ∧
      ∀ otherwise, (c.perform (inferWatched otherwise (s.options.maxDepth - s.depth))).run s = done := by
  refine ⟨fun s reached => canonical_iff_sound.mpr reached.passed.sound, fun s c canonical fits => ?_⟩
  have sound := canonical_iff_sound.mp canonical
  have does := fun otherwise => perform_does (inferWatched_follows s otherwise _) (ready_self sound) c fits
  obtain ⟨-, run, typed⟩ := does (infer 0)
  exact ⟨typed, canonical_iff_sound.mpr (run.sound sound), fun otherwise => (does otherwise).1⟩

def nestedLists : String :=
  "\x7b\"type\":\"assign\",\"target\":\x7b\"type\":\"name\",\"id\":\"x\"\x7d," ++
    "\"value\":\x7b\"type\":\"array\",\"elts\":[" ++ "\x7b\"type\":\"array\",\"elts\":[" ++
    "\x7b\"type\":\"string\",\"id\":\"b\"\x7d,\x7b\"type\":\"string\",\"id\":\"a\"\x7d]\x7d," ++
    "\x7b\"type\":\"int\",\"value\":1\x7d]\x7d\x7d"

def afterNestedLists : Session :=
  (loadFile
    { options := { cacheDir := ⟨"cache"⟩, diskCache := false }
      files := { root := .folder [("a.rb", .file nestedLists.toUTF8)] }
      cache := { dumper := .content } } ⟨"/a.rb"⟩).2

theorem types_canonical_nestedLists :
    Reachable afterNestedLists ∧ afterNestedLists.registry.all.map (fun e => e.2.ty) =
        [.listOf (.union [.num, .list (.union [.str (some "a"), .str (some "b")]) ["b", "a"]])] ∧
      afterNestedLists.Canonical ∧ (afterNestedLists.call (.load ⟨"/a.rb"⟩ true)).Canonical := by
  have reached : Reachable afterNestedLists := (reachable_empty _ _ rfl rfl).loadFile _
  have canonical := types_canonical.1 _ reached
  exact ⟨reached, by
    decide +kernel, canonical, (types_canonical.2 _ (.load ⟨"/a.rb"⟩ true) canonical trivial).2.1⟩

end Session

end RubyInfer
