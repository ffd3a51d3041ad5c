import RubyInfer.Proofs.Store.Scopes
import RubyInfer.Proofs.Ty.Union
import RubyInfer.Session.Finish

/-!
# Runs of inference

Inference changes a session by few kinds of update, and it opens and closes brackets around what is
inside a node, a body with its own static context, a file and an application. `Update` lists the
former, and `Runs` nests them in the latter. What holds along all runs holds of inference, whatever
the node. Most facts do not depend on the nesting: `Runs.lift` gives them from single changes.

The updates that need a reason stand in `Runs` by themselves, with the reason: functions are made of
function nodes and wait to be called, they count as called when they are `Due`, and a failure is
forgotten once there is a tree. The others are `Plain`.

A `Regime` says what a run may count on: a property of all types, whether scopes and trees are in
range, and whether the depth may be exceeded.
-/

namespace RubyInfer

/-- What is asked of the types and scopes of a run. -/
structure Regime where
  ty : Ty → Prop
  closed : Ty.Closed ty
  inScope : Prop
  spends : Prop

abbrev Regime.typed (R : Regime) (ty : Ty) (_ : Session) : Prop := R.ty ty

namespace Session

def HasScope (R : Regime) (s : Session) (scope : ScopeId) : Prop := R.inScope → scope < s.scopes.size

def HasTree (R : Regime) (s : Session) (node : NodeRef) : Prop := R.inScope → node.tree < s.cache.trees.size

def openFile (s : Session) (file : Path) : Session :=
  { s with importStack := s.importStack.insert file, cwd := file.parent? }

def closeFile (s : Session) (cwd : Option Path) (file : Path) : Session :=
  { s with cwd, importStack := s.importStack.erase file }

def unboundReport (s : Session) (node : NodeRef) (id : String) : Diagnostic :=
  ⟨node.file, .error, s.span node, "unbound variable " ++ id⟩

/-- One change that inference makes to a session. What leaves the session as it is, such as a module
that is there already, is no update. -/
inductive Update (R : Regime) (s : Session) : Session → Prop
  | bind (scope : ScopeId) (tier : Tier) (name : String) (node : NodeRef) (body : Span)
      (kind : BindingKind) (ty : Ty)
      (inRange : s.HasScope R scope) (typed : R.ty ty) (rooted : s.HasTree R node) :
      Update R s (s.bind scope tier name node body kind ty).2
  | enter (scope : ScopeId) (name : String) (tier : Tier) (id : BindingId)
      (held : R.inScope → s.scopes.Holds id) :
      Update R s { s with scopes := s.scopes.enter scope name tier id }
  | refineAttributes (ids : List BindingId) (ty : Ty) (typed : R.ty ty) :
      Update R s (s.refineAttributes ids ty)
  | refer (node : NodeRef) (ids : List BindingId) (held : ∀ id ∈ ids, s.scopes.Holds id) :
      Update R s (s.refer node ids)
  | report (node : NodeRef) (id : String) (named : s.nameOf? node = some id) :
      Update R s { s with diagnostics := s.diagnostics.push (s.unboundReport node id) }
  | unresolved (node : NodeRef) (id : String) (named : s.nameOf? node = some id)
      (reported : s.diagnostics.has (s.unboundReport node id) = true) (unsettled : node ∉ s.resolved)
      (new : node ∉ s.unresolved) : Update R s { s with unresolved := s.unresolved ++ [node] }
  | newModule (name qname : String) (parent : ScopeId) (new : s.moduleNamed? qname = none) :
      Update R s { s with
        scopes := (s.scopes.push .moduleBody (some parent) qname).2
        owners := s.owners ++ [(s.scopes.size, .moduleObj s.modules.size)]
        modules := s.modules.push { name, qname, scope := s.scopes.size } }
  | newClass (name qname : String) (parent : ScopeId) (new : s.classNamed? qname = none) :
      Update R s { s with
        scopes := ((s.scopes.push .classBody (some parent) qname).2.push .instances
          (some s.scopes.size) qname).2
        owners := s.owners ++ [(s.scopes.size, .classObj s.classes.size)]
        classes := s.classes.push { name, qname, scope := s.scopes.size, instances := s.scopes.size + 1 } }
  | setBase (id base : ClassId) (other : base ≠ id) (unset : (s.classRecord id).base = none) :
      Update R s { s with classes := s.classes.modify id (fun c => { c with base := some base }) }
  | mixIntoClass (c : ClassId) (m : ModuleId) :
      Update R s { s with
        classes := s.classes.modify c
          (fun r => { r with mixins := if r.mixins.contains m then r.mixins else r.mixins ++ [m] }) }
  | mixIntoModule (own m : ModuleId) (other : own ≠ m) :
      Update R s { s with
        modules := s.modules.modify own
          (fun r => { r with mixins := if r.mixins.contains m then r.mixins else r.mixins ++ [m] }) }
  | newFunction (node : NodeRef) (name qname : String) (env : ScopeId) (owner : Option Owner)
      (classLevel isLambda : Bool) (new : s.functionAt.lookup node = none) :
      Update R s { s with
        functions := s.functions.push { node, name, qname, env, owner, classLevel, isLambda }
        functionAt := s.functionAt ++ [(node, s.functions.size)] }
  | uncalled (id : FunctionId) (untouched : (s.function id).called = false) (new : id ∉ s.uncalled) :
      Update R s { s with uncalled := s.uncalled ++ [id] }
  | markCalled (id : FunctionId) : Update R s (s.markCalled id)
  | newFrame (id : FunctionId) (kind : ScopeKind) (unset : (s.function id).frame = none) :
      Update R s { s with
        scopes := (s.scopes.push kind (some (s.function id).env) (s.function id).qname).2
        functions := s.functions.modify id (fun f => { f with frame := some s.scopes.size }) }
  | addReturn (acc ty : Ty) (rest : List Ty) (current : s.returns = acc :: rest) (typed : R.ty ty) :
      Update R s { s with returns := acc.join ty :: rest }
  | autoloaded (file : String) (new : file ∉ s.autoloaded) :
      Update R s { s with autoloaded := s.autoloaded ++ [file] }
  | fetch (file : Path) : Update R s (s.fetch file).2
  | recordFailure (file : Path) : Update R s (s.recordFailure file)
  | clearFailure (file : Path) : Update R s { s with failed := s.failed.erase file }
  | skipTree : Update R s s.skipExhausted
  | exhaust : Update R s { s with exhausted := true }
  | giveUp (spent : s.exhausted = true) : Update R s { s.skipExhausted with exhausted := false }
  | loaded (file : Path) (going : s.exhausted = false) : Update R s { s with loaded := s.loaded.insert file }

inductive Change (R : Regime) (s : Session) : Session → Prop
  | update {t : Session} (step : Update R s t) : Change R s t
  | depth (depth : Nat) : Change R s { s with depth }
  | staticContext (staticContext : Bool) : Change R s { s with staticContext }
  | openFile (file : Path) : Change R s (s.openFile file)
  | closeFile (cwd : Option Path) (file : Path) : Change R s (s.closeFile cwd file)
  | pushCall (key : CallKey) (receiver : R.ty key.receiver) (args : ∀ t ∈ key.args, R.ty t) :
      Change R s (s.pushCall key)
  | popCall (key : CallKey) (result : Ty) (typed : R.ty result) : Change R s (s.popCall key result).2

/-! ## Reasons -/

def IsFunction (s : Session) (node : NodeRef) : Prop :=
  ∃ locator params body isLambda doc, s.kind node = .function locator params body isLambda doc

def Entered (s : Session) (id : FunctionId) : Prop := (s.function id).frame.isSome = true

/-- A function counts as called when a call of it is cut short, when its body is entered, and when
it has no body. -/
def Due (s : Session) (id : FunctionId) : Prop :=
  (∃ key : CallKey, key.function = id ∧ s.refuses key = true) ∨ s.Entered id ∨
    ¬ s.IsFunction (s.function id).node

def queueFunction (s : Session) (node : NodeRef) (name : String) (env : ScopeId)
    (owner : Option Owner) (classLevel isLambda : Bool) :
    Session :=
  (s.functionFor node name env owner classLevel isLambda).2.addUncalled
    (s.functionFor node name env owner classLevel isLambda).1

structure Nested (scopes : Scopes) (functions : Array FunctionRecord) : Prop where
  global : Scopes.global < scopes.size
  parents {id : ScopeId} {scope : Scope} : scopes.arena[id]? = some scope →
      ∀ p, scope.parent = some p → p < id
  functions {id : FunctionId} {f : FunctionRecord} : functions[id]? = some f → f.env < scopes.size

structure Plain (R : Regime) (s t : Session) : Prop where
  functionAt : t.functionAt = s.functionAt
  uncalled : t.uncalled = s.uncalled
  called (id : FunctionId) : (t.function id).called = true → (s.function id).called = true
  exhausted : t.exhausted = true → s.exhausted = true
  failed (file : Path) : s.failed.contains file = true → t.failed.contains file = true
  nested : R.inScope → Nested s.scopes s.functions → Nested t.scopes t.functions

/-- Some run of a part of inference leads from one session to the other. -/
inductive Runs (R : Regime) : Session → Session → Prop
  | refl (s : Session) : Runs R s s
  | update {s t : Session} (step : Update R s t) (plain : Plain R s t) : Runs R s t
  | define {s : Session} (node : NodeRef) (name : String) (env : ScopeId) (owner : Option Owner)
      (classLevel isLambda : Bool) (written : s.IsFunction node) (around : s.HasScope R env) :
      Runs R s (s.queueFunction node name env owner classLevel isLambda)
  | markCalled {s : Session} (id : FunctionId) (due : s.Due id) : Runs R s (s.markCalled id)
  | clearFailure {s : Session} (file : Path) (tree : Nat)
      (held : s.cache.memory.get? file = some (some tree)) :
      Runs R s { s with failed := s.failed.erase file }
  | exhaust {s : Session} (allowed : R.spends) : Runs R s { s with exhausted := true }
  | trans {s t u : Session} (first : Runs R s t) (second : Runs R t u) : Runs R s u
  | visit {s t : Session} (going : s.exhausted = false) (node : Runs R { s with depth := s.depth + 1 } t) :
      Runs R s { t with depth := t.depth - 1 }
  | staticBody {s t : Session} (on : Bool) (body : Runs R { s with staticContext := on } t) :
      Runs R s { t with staticContext := s.staticContext }
  | file {s t : Session} (path : Path) (fresh : s.importStack.contains path = false)
      (root : Runs R (s.openFile path) t) :
      Runs R s (t.closeFile s.cwd path)
  | call {s t : Session} (key : CallKey) (result : Ty) (fresh : s.callStack.contains key = false)
      (bounded : (s.function key.function).active < s.options.maxRecursion) (receiver : R.ty key.receiver)
      (args : ∀ t ∈ key.args, R.ty t) (entered : s.Entered key.function)
      (body : Runs R (s.pushCall key) t) (typed : R.ty result) :
      Runs R s (t.popCall key result).2

theorem lookup_functionAt {s : Session} {node : NodeRef} (new : s.functionOf? node = none) :
    s.functionAt.lookup node = none := by
  rw [List.lookup_eq_none_iff]
  intro e mem
  have other := List.find?_eq_none.mp (Option.map_eq_none_iff.mp new) e mem
  rw [bne_iff_ne]
  rintro rfl
  simp at other

theorem Update.queueFunction {R : Regime} {rel : Session → Session → Prop} (refl : ∀ a, rel a a)
    (trans : ∀ {a b c}, rel a b → rel b c → rel a c) (single : ∀ {a b}, Update R a b → rel a b)
    (s : Session) (node : NodeRef)
    (name : String) (env : ScopeId) (owner : Option Owner) (classLevel isLambda : Bool) :
    rel s (s.queueFunction node name env owner classLevel isLambda) := by
  have made : rel s (s.functionFor node name env owner classLevel isLambda).2 := by
    unfold functionFor
    split
    · exact refl s
    · rename_i new
      exact single (.newFunction node name _ env owner classLevel isLambda (lookup_functionAt new))
  refine trans made ?_
  unfold Session.queueFunction addUncalled
  split
  · exact refl _
  · rename_i new
    simp only [List.contains_iff_mem, not_or] at new
    exact single (.uncalled _ (by simpa using new.1) new.2)

namespace Runs

variable {R : Regime} {s t : Session}

theorem lift {rel : Session → Session → Prop} (refl : ∀ a, rel a a)
    (trans : ∀ {a b c}, rel a b → rel b c → rel a c)
    (single : ∀ {a b}, Change R a b → rel a b) (run : Runs R s t) : rel s t := by
  induction run with
  | refl s => exact refl s
  | update step => exact single (.update step)
  | define node name env owner classLevel isLambda =>
    exact Update.queueFunction refl trans (fun step => single (.update step)) _ node name env owner
      classLevel isLambda
  | markCalled id => exact single (.update (.markCalled id))
  | clearFailure file => exact single (.update (.clearFailure file))
  | exhaust => exact single (.update .exhaust)
  | trans _ _ first second => exact trans first second
  | visit _ _ inside => exact trans (single (.depth _)) (trans inside (single (.depth _)))
  | staticBody _ _ inside =>
    exact trans (single (.staticContext _)) (trans inside (single (.staticContext _)))
  | file path _ _ inside => exact trans (single (.openFile path)) (trans inside (single (.closeFile _ path)))
  | call key result _ _ receiver args _ _ typed inside =>
    exact trans (single (.pushCall key receiver args)) (trans inside (single (.popCall key result typed)))

theorem keeps {inv : Session → Prop} (single : ∀ {a b}, Change R a b → inv a → inv b)
    (run : Runs R s t) (start : inv s) : inv t :=
  @lift R s t (fun a b => inv a → inv b) (fun _ h => h) (fun f g h => g (f h)) single run start

end Runs

end Session

end RubyInfer
