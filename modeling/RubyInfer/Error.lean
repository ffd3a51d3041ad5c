import RubyInfer.Path.Basic

/-!
What can go wrong with an analysis as a whole or with one of its files.
-/

namespace RubyInfer

inductive Limit
  | maxDepth | maxNodes
deriving DecidableEq

def Limit.name : Limit → String
  | .maxDepth => "max_depth"
  | .maxNodes => "max_nodes"

inductive AnalysisError
  | configuration (path : Path) (reason : String)
  | unparsable (path : Path)
  | exhausted (path : Path) (limit : Limit)
deriving DecidableEq

def AnalysisError.message : AnalysisError → String
  | .configuration path reason => "configuration error: " ++ path.text ++ ": " ++ reason
  | .unparsable path => "failed to parse " ++ path.text
  | .exhausted path limit => "resource exhausted in " ++ path.text ++ " (" ++ limit.name ++ ")"

end RubyInfer
