import RubyInfer.Session.Basic

/-!
The counts that describe an analysis.
-/

namespace RubyInfer

structure Summary where
  filesLoaded : Nat
  failedToParse : Nat
  filesWithProblems : Nat
  diagnostics : Nat
  definitions : Nat
  crossReferences : Nat
  referencingNodes : Nat
  resolved : Nat
  unresolved : Nat
  calls : Nat
deriving DecidableEq

namespace Summary

/-- The percentage of names that were resolved; with no names at all it is 100. -/
def resolveRate (s : Summary) : Double :=
  if s.resolved + s.unresolved = 0 then .ofFloat 100
  else .ofFloat (Float.ofNat s.resolved * 100 / Float.ofNat (s.resolved + s.unresolved))

def text (s : Summary) (millis : Nat) : String :=
  "analyzed " ++ Nat.repr s.filesLoaded ++ " files in " ++ Nat.repr millis ++ "ms (" ++
    Nat.repr s.failedToParse
    ++ " failed to parse): " ++ Nat.repr s.diagnostics ++ " diagnostics in " ++
      Nat.repr s.filesWithProblems ++ " files, "
    ++ Nat.repr s.definitions ++ " definitions, " ++ Nat.repr s.crossReferences ++ " cross references, "
    ++ Nat.repr s.resolved ++ " resolved / " ++ Nat.repr s.unresolved ++ " unresolved names (" ++
      s.resolveRate.tenths ++ "%), "
    ++ Nat.repr s.calls ++ " calls"

def toJson (s : Summary) (millis : Nat) : Json :=
  .object [("duration_ms", .nat millis), ("files_loaded", .nat s.filesLoaded),
    ("failed_to_parse", .nat s.failedToParse),
    ("files_with_problems", .nat s.filesWithProblems), ("diagnostics", .nat s.diagnostics),
    ("definitions", .nat s.definitions),
    ("cross_references", .nat s.crossReferences), ("referencing_nodes", .nat s.referencingNodes),
    ("resolved", .nat s.resolved),
    ("unresolved", .nat s.unresolved), ("resolve_rate", .number (.double s.resolveRate)),
    ("calls", .nat s.calls)]

end Summary

def Session.summary (s : Session) : Summary where
  filesLoaded := s.loaded.size
  failedToParse := s.failed.size
  filesWithProblems := s.diagnostics.filesWithProblems
  diagnostics := s.diagnostics.total
  definitions := s.registry.size
  crossReferences := s.registry.crossReferences
  referencingNodes := s.registry.referencingNodes
  resolved := s.resolved.length
  unresolved := s.unresolved.length
  calls := s.calls

end RubyInfer
