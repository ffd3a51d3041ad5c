import RubyInfer.Session.Project
import RubyInfer.Session.Summary

/-!
The end of an analysis: functions that no call has reached are applied, round by round until none is
left, and then variables that nothing refers to are reported.
-/

namespace RubyInfer.Session

def drainOne (s : Session) (id : FunctionId) : Session :=
  if s.uncalled.contains id then
    let s := ((Analysis.apply Analysis.inferTop id (s.defaultSelf id) {}).run s).2
    { s with exhausted := false, depth := 0 }
  else s

def drainRound (s : Session) : Session := s.uncalled.foldl drainOne s

/-- Drains round by round. The rounds may not suffice, since a body may load files that define
further functions. -/
def drain? : (rounds : Nat) → Session → Option Session
  | 0, s => if s.uncalled.isEmpty then some s else none
  | rounds + 1, s => if s.uncalled.isEmpty then some s else drain? rounds s.drainRound

def unusedWarning (s : Session) (b : Binding) : Diagnostic :=
  ⟨b.file, .warning, s.span b.node, "unused variable: " ++ b.name⟩

def reportable (s : Session) : List Binding :=
  (s.registry.all.map Prod.snd).filter (fun b => !b.kind.exemptFromUnused)

/-- Takes back the warnings about bindings that are used by now, and warns about those that are
not. -/
def reportUnused (s : Session) : Session :=
  let used := (s.reportable.filter (fun b => !b.isUnused)).map s.unusedWarning
  let unused := (s.reportable.filter Binding.isUnused).map s.unusedWarning
  { s with diagnostics := unused.foldl Diagnostics.push (used.foldl Diagnostics.retract s.diagnostics) }

/-- Ends an analysis, if the rounds suffice. It may be ended more than once. -/
def finish? (rounds : Nat) (s : Session) : Option (Summary × Session) := do
  let s ← drain? rounds { s with phase := .fixpoint }
  let s := { s.reportUnused with phase := .done }
  return (s.summary, s)

end RubyInfer.Session
