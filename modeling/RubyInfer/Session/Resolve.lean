import RubyInfer.Session.Member

/-!
What an identifier stands for: the namespace that its sigil picks, then the scopes around it, then
the members of `self`.
-/

namespace RubyInfer

/-- Names that are always there. They have no binding, and nothing is reported about them. -/
def builtins : List String :=
  ["puts", "print", "p", "pp", "printf", "sprintf", "format", "gets", "raise", "fail", "require",
    "require_relative", "load", "autoload", "attr_accessor", "attr_reader", "attr_writer", "include",
    "extend", "prepend", "private", "public", "protected", "module_function", "private_constant",
    "lambda", "proc", "loop", "catch", "throw", "exit", "abort", "at_exit", "sleep", "rand", "srand",
    "block_given?", "binding", "caller", "nil", "self", "super", "defined?", "__FILE__", "__LINE__",
    "__dir__", "__method__", "new", "initialize", "send", "public_send", "respond_to?", "freeze",
    "instance_variable_get", "instance_variable_set", "define_method", "alias_method", "Object",
    "BasicObject", "Kernel", "Module", "Class", "Comparable", "Enumerable", "String", "Symbol",
    "Integer", "Float", "Numeric", "Array", "Hash", "Range", "Regexp", "Proc", "IO", "File", "Dir",
    "Time", "Struct", "Exception", "StandardError", "RuntimeError", "ArgumentError", "TypeError",
    "NameError", "NoMethodError", "NotImplementedError", "KeyError", "IndexError", "IOError",
    "ENV", "ARGV", "STDIN", "STDOUT", "STDERR"]

namespace Session

def variableMember? (s : Session) (scope : ScopeId) (id : String) (table : ClassRecord → ScopeId) :
    Option (List BindingId) := do
  let c ← s.selfClass? scope
  s.scopes.local? (table (s.classRecord c)) id .object

def lookupAround? (s : Session) (scope : ScopeId) (id : String) : Option (List BindingId) :=
  match s.lookupName? scope id with
  | some ids => some ids
  | none => if id = selfName then none else s.lookupMember? (s.selfType scope) id

def resolveName? (s : Session) (scope : ScopeId) (id : String) : NameKind → Option (List BindingId)
  | .gvar => s.scopes.local? Scopes.global id .object
  | .ivar => (s.variableMember? scope id ClassRecord.instances).or (s.lookupAround? scope id)
  | .cvar => (s.variableMember? scope id ClassRecord.scope).or (s.lookupAround? scope id)
  | .plain => s.lookupAround? scope id

def inProject (s : Session) (node : NodeRef) : Bool := s.projectDir.any node.file.isWithin

def settleReference (s : Session) (node : NodeRef) (id : String) :
    Option (List BindingId) → (Ty × Bool) × Session
  | some ids =>
    let s := s.refer node ids
    ((s.typeOf ids, s.isCallable ids), s)
  | none =>
    if id = "true" ∨ id = "false" then ((.bool, false), s)
    else if id = "nil" then ((.nil, false), s)
    else if builtins.contains id then ((.unknown, false), s)
    else ((.unknown, false), (s.report node .error ("unbound variable " ++ id)).markUnresolved node)

end Session

end RubyInfer
