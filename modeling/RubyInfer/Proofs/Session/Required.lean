import RubyInfer.Proofs.Session.Reloading

/-!
# Files are inferred from where they are required

A file may be required from inside a class, a singleton class or a function. Neither the static
context nor what is being returned there is set aside while the file is loaded. Where this makes no
difference, and what it makes a difference for, is said by `load_anywhere`.
-/

namespace RubyInfer

/-! ## Where the context does not matter -/

def Scopes.untiered (scopes : Scopes) : Bool :=
  scopes.arena.all fun scope => scope.table.all fun e => e.1.tier = .object

theorem Scopes.lookup?_untiered {scopes : Scopes} (untiered : scopes.untiered = true) (id : ScopeId)
    (name : String) :
    scopes.lookup? id name .ofClass = none := by
  refine List.findSome?_eq_none_iff.mpr fun i _ => ?_
  have entries : ∀ e ∈ (scopes.get i).table, e.1.tier = .object := by
    unfold get
    cases there : scopes.arena[i]? with
    | none => exact fun e mem => absurd mem List.not_mem_nil
    | some scope =>
      have all := Array.all_eq_true_iff_forall_mem.mp untiered scope (Array.mem_of_getElem? there)
      exact fun e mem => of_decide_eq_true (List.all_eq_true.mp all e mem)
  have missing : (scopes.get i).table.lookup ⟨name, .ofClass⟩ = none := by
    rw [List.lookup_eq_none_iff]
    intro e mem
    refine bne_iff_ne.mpr fun same => ?_
    have tier := entries e mem
    rw [← same] at tier
    cases tier
  unfold local? Scope.local?
  rw [missing]
  rfl

def Event.unheeding : Event → Bool
  | visit node _ m => match m.kind node with
    | .function _ _ _ _ _ => false
    | _ => true
  | change m _ => m.scopes.untiered

theorem Event.not_heeds {e : Event} (plain : e.unheeding = true) : ¬e.Heeds := by
  cases e with
  | visit node _ m =>
    intro matters
    have matters : m.DefinesPlainly node (m.kind node) := matters
    simp only [unheeding] at plain
    cases written : m.kind node <;> simp_all [Session.DefinesPlainly]
  | change m n =>
    rintro ⟨node, id, kind, scope, -, -, other⟩
    have name : (m.within (!m.staticContext) m.returns).lookupName? scope id = m.lookupName? scope id := by
      have one : m.scopes.lookup? scope id .ofClass = none := Scopes.lookup?_untiered plain scope id
      unfold Session.lookupName?
      show (m.scopes.lookup? scope id (if !m.staticContext then _ else _)).or
          (m.scopes.lookup? scope id (if !m.staticContext then _ else _)) = _
      cases m.staticContext <;> simp [one]
    refine other ?_
    unfold Session.resolveName? Session.lookupAround?
    rw [name, Session.lookupMember?_within]
    rfl

theorem apart_of_all {events others : List Event}
    (plain : (events.zip others).all
      (fun p => p.1.before.staticContext == p.2.before.staticContext || p.1.unheeding) = true) :
    Apart events others := by
  intro p mem other
  have either := List.all_eq_true.mp plain p mem
  rw [Bool.or_eq_true, beq_iff_eq] at either
  exact Event.not_heeds (either.resolve_left other)

def Event.unreturning (n : Nat) : Event → Bool
  | visit node _ m => decide ((m.kind node).Returns → n < m.returns.length)
  | change _ _ => true

theorem silent_of_all {n : Nat} {events : List Event}
    (plain : events.all (Event.unreturning n) = true) : Silent n events :=
  fun _ _ _ mem => of_decide_eq_true (List.all_eq_true.mp plain _ mem)

namespace Session

open Analysis

variable {s t : Session}

/-! ## Loading -/

def loadHere (s : Session) (path : Path) (force : Bool) : Option Ty × Session :=
  (load (infer (s.options.maxDepth - s.depth)) path force).run s

def tellHere (s : Session) (path : Path) (force : Bool) : List Event :=
  (load (tell (s.options.maxDepth - s.depth)) path force s).2.2

def holding (stmts : List String) : Session where
  options := { cacheDir := ⟨"cache"⟩, diskCache := false }
  files := { root := .folder [("a.rb", .file (statements stmts).toUTF8)] }
  cache := { dumper := .content }

def returnDump : String := "\x7b\"type\":\"return\",\"value\":\x7b\"type\":\"int\",\"value\":1\x7d\x7d"

def returningMethod : String :=
  "\x7b\"type\":\"def\",\"name\":" ++ naming "m" ++ ",\"params\":\x7b\x7d,\"body\":" ++ returnDump ++ "\x7d"

def sheltered : Session :=
  holding [classDump "B" "" returningMethod, calling (calling (naming "B") "new") "m"]

/-- **Loading from anywhere.** Between two sessions that differ in the static context and in what
the applications under way have returned, the current application returns more by the same types,
and by none unless `return` is reached in the file itself. Everything else comes out the same,
unless the runs come, in different contexts, to a method without a receiver or to a name that
depends on the context. -/
theorem load_anywhere (alike : t = s.within t.staticContext t.returns) (path : Path) (force : Bool) :
    ∃ tys, (s.loadHere path force).2 = (s.loadHere path force).2.within s.staticContext (pour tys s.returns) ∧
      (Silent s.returns.length (s.tellHere path force) → tys = []) ∧
      (t.staticContext = s.staticContext ∨ Apart (s.tellHere path force) (t.tellHere path force) →
        t.loadHere path force =
          ((s.loadHere path force).1,
            (s.loadHere path force).2.within t.staticContext (pour tys t.returns))) := by
  obtain ⟨static, pending, rfl⟩ : ∃ static pending, t = s.within static pending := ⟨_, _, alike⟩
  have hears := tell_hears (s.options.maxDepth - s.depth) rfl
  obtain ⟨-, -, -, events, tys, told, same, silent⟩ :=
    load_tells (p := True) hears path force fun _ => trivial
  have events_eq : s.tellHere path force = events := congrArg (·.2.2) told
  rw [events_eq]
  refine ⟨tys, same.own, silent id, fun place => ?_⟩
  exact (same static pending (place.imp_right fun apart => ⟨id, apart⟩)).1

theorem load_anywhere_sheltered :
    (sheltered.loadHere ⟨"/a.rb"⟩ false).1.isSome ∧ (sheltered.within true [.num]).loadHere ⟨"/a.rb"⟩ false =
      ((sheltered.loadHere ⟨"/a.rb"⟩ false).1,
        (sheltered.loadHere ⟨"/a.rb"⟩ false).2.within true [.num]) := by
  obtain ⟨tys, -, silent, same⟩ :=
    load_anywhere (s := sheltered) (t := sheltered.within true [.num]) rfl ⟨"/a.rb"⟩ false
  obtain rfl : tys = [] := silent (silent_of_all (by decide +kernel))
  exact ⟨by decide +kernel, same (.inr (apart_of_all (by decide +kernel)))⟩

def exposed : Session := holding [returningMethod, returnDump]

/-- A method lands in the tier that the static context picks, and a `return` counts for the
application under way. -/
theorem load_heeds_place :
    ∃ s t : Session, t = s.within t.staticContext t.returns ∧ t.returns.length = s.returns.length ∧
    ((s.loadHere ⟨"/a.rb"⟩ false).2.scopes.local? Scopes.global "m" .object).isSome = true ∧
    ((t.loadHere ⟨"/a.rb"⟩ false).2.scopes.local? Scopes.global "m" .object).isSome = false ∧
    (s.loadHere ⟨"/a.rb"⟩ false).2.returns ≠ s.returns ∧
    (t.loadHere ⟨"/a.rb"⟩ false).2.returns ≠ t.returns := by
  refine ⟨exposed.within false [.unknown], exposed.within true [.bool], rfl, rfl, ?_⟩
  decide +kernel

end Session

end RubyInfer
