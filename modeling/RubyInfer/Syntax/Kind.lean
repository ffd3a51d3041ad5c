/-!
The kinds of syntax nodes. A kind is generic in what stands for a child: an index in an arena, or a
tree. `Kind.children` fixes the one order in which children are visited, and `Kind.mapM` visits them
in that order.
-/

namespace RubyInfer

/-- Primitive operators. Compound ones such as `!=` and `<=` are spelled out when a dump is read. -/
inductive Op
  | add | sub | mul | div | mod | pow | equal | lt | gt | bitAnd | bitOr | bitXor | isIn | lShift |
      rShift | invert | and | or
  | not | defined | isMatch
deriving DecidableEq, Inhabited

namespace Op

def all : List Op :=
  [.add, .sub, .mul, .div, .mod, .pow, .equal, .lt, .gt, .bitAnd, .bitOr, .bitXor, .isIn, .lShift,
    .rShift, .invert, .and, .or,
    .not, .defined, .isMatch]

def name : Op → String
  | .add => "Add" | .sub => "Sub" | .mul => "Mul" | .div => "Div" | .mod => "Mod" | .pow =>
    "Pow" | .equal => "Equal"
  | .lt => "Lt" | .gt => "Gt" | .bitAnd => "BitAnd" | .bitOr => "BitOr" | .bitXor => "BitXor" | .isIn => "In"
  | .lShift => "LShift" | .rShift => "RShift" | .invert => "Invert" | .and => "And" | .or =>
    "Or" | .not => "Not"
  | .defined => "Defined" | .isMatch => "Match"

def ofName? (s : String) : Option Op := all.find? (fun op => op.name = s)

def isComparison : Op → Bool
  | .equal | .lt | .gt | .isIn | .isMatch | .not => true
  | _ => false

def isLogical : Op → Bool
  | .and | .or => true
  | _ => false

end Op

/-- The namespace of an identifier: `x`, `@x`, `@@x` or `$x`. -/
inductive NameKind
  | plain | ivar | cvar | gvar
deriving DecidableEq, Inhabited

namespace NameKind

def all : List NameKind := [.plain, .ivar, .cvar, .gvar]

def name : NameKind → String
  | .plain => "Local" | .ivar => "Instance" | .cvar => "Class" | .gvar => "Global"

def ofName? (s : String) : Option NameKind := all.find? (fun k => k.name = s)

end NameKind

inductive Control
  | break | next | redo | retry
deriving DecidableEq, Inhabited

namespace Control

def all : List Control := [.break, .next, .redo, .retry]

def name : Control → String
  | .break => "Break" | .next => "Next" | .redo => "Redo" | .retry => "Retry"

def ofName? (s : String) : Option Control := all.find? (fun c => c.name = s)

end Control

/-- Formal parameters. The default values belong to the last of the positional ones. -/
structure Params (α : Type) where
  positional : List α := []
  defaults : List α := []
  rest : Option α := none
  restKw : Option α := none
  afterRest : List α := []
  blockArg : Option α := none
deriving DecidableEq, Inhabited

inductive Kind (α : Type)
  | block (stmts : List α)
  | moduleDef (locator : α) (body : Option α) (doc : Option String)
  | classDef (locator : α) (base body : Option α) (isStatic : Bool) (doc : Option String)
  | function (locator : Option α) (params : Params α) (body : Option α) (isLambda : Bool)
      (doc : Option String)
  | call (func : α) (args keywords : List α) (star blockArg : Option α)
  | member (target attr : α)
  | binary (op : Op) (left right : α)
  | unary (op : Op) (operand : α)
  | assign (target value : α)
  | name (id : String) (kind : NameKind)
  | symbol (id : String)
  | str (value : String)
  | strEmbed (value : Option α)
  | regexp (pattern stop : Option α)
  | int (text : String)
  | float (text : String)
  | array (elts : List α)
  | dict (keys values : List α)
  | starred (value : α)
  | keyword (arg : String) (value : Option α)
  | branch (test : α) (body orelse : Option α)
  | loop (test : α) (body : Option α)
  | each (target iter : α) (body : Option α)
  | guarded (body rescue orelse ensure : Option α)
  | handler (exceptions : List α) (binder body orelse : Option α)
  | ret (value : Option α)
  | yield (value : Option α)
  | subscript (value : α) (part : Option α)
  | index (value : α)
  | slice (lower upper : Option α)
  | control (kind : Control)
  | undef (targets : List α)
  | void
deriving DecidableEq, Inhabited

namespace Params

def children {α : Type} (p : Params α) : List α :=
  p.positional ++ p.defaults ++ p.rest.toList ++ p.restKw.toList ++ p.afterRest ++ p.blockArg.toList

def mapM {m : Type → Type} [Monad m] {α β : Type} (f : α → m β) (p : Params α) : m (Params β) := do
  let positional ← p.positional.mapM f
  let defaults ← p.defaults.mapM f
  let rest ← p.rest.mapM f
  let restKw ← p.restKw.mapM f
  let afterRest ← p.afterRest.mapM f
  let blockArg ← p.blockArg.mapM f
  pure ⟨positional, defaults, rest, restKw, afterRest, blockArg⟩

end Params

namespace Kind

variable {α β : Type}

/-- Keys and values alternate; a key or a value without a partner is dropped. -/
def interleave : List α → List α → List α
  | k :: ks, v :: vs => k :: v :: interleave ks vs
  | _, _ => []

def children : Kind α → List α
  | .block stmts => stmts
  | .moduleDef locator body _ => locator :: body.toList
  | .classDef locator base body _ _ => locator :: (base.toList ++ body.toList)
  | .function locator params body _ _ => locator.toList ++ params.children ++ body.toList
  | .call func args keywords star blockArg => func :: (args ++ keywords ++ star.toList ++ blockArg.toList)
  | .member target attr => [target, attr]
  | .binary _ left right => [left, right]
  | .unary _ operand => [operand]
  | .assign target value => [target, value]
  | .strEmbed value => value.toList
  | .regexp pattern stop => pattern.toList ++ stop.toList
  | .array elts => elts
  | .dict keys values => interleave keys values
  | .starred value => [value]
  | .keyword _ value => value.toList
  | .branch test body orelse => test :: (body.toList ++ orelse.toList)
  | .loop test body => test :: body.toList
  | .each target iter body => target :: iter :: body.toList
  | .guarded body rescue orelse ensure => body.toList ++ rescue.toList ++ orelse.toList ++ ensure.toList
  | .handler exceptions binder body orelse => exceptions ++ binder.toList ++ body.toList ++ orelse.toList
  | .ret value => value.toList
  | .yield value => value.toList
  | .subscript value part => value :: part.toList
  | .index value => [value]
  | .slice lower upper => lower.toList ++ upper.toList
  | .undef targets => targets
  | .name _ _ | .symbol _ | .str _ | .int _ | .float _ | .control _ | .void => []

def mapPairsM {m : Type → Type} [Monad m] (f : α → m β) : List α → List α → m (List β × List β)
  | k :: ks, v :: vs => do
    let k ← f k
    let v ← f v
    let (ks, vs) ← mapPairsM f ks vs
    pure (k :: ks, v :: vs)
  | _, _ => pure ([], [])

def mapM {m : Type → Type} [Monad m] (f : α → m β) : Kind α → m (Kind β)
  | .block stmts => return .block (← stmts.mapM f)
  | .moduleDef locator body doc => return .moduleDef (← f locator) (← body.mapM f) doc
  | .classDef locator base body isStatic doc =>
    return .classDef (← f locator) (← base.mapM f) (← body.mapM f) isStatic doc
  | .function locator params body isLambda doc =>
    return .function (← locator.mapM f) (← params.mapM f) (← body.mapM f) isLambda doc
  | .call func args keywords star blockArg =>
    return .call (← f func) (← args.mapM f) (← keywords.mapM f) (← star.mapM f) (← blockArg.mapM f)
  | .member target attr => return .member (← f target) (← f attr)
  | .binary op left right => return .binary op (← f left) (← f right)
  | .unary op operand => return .unary op (← f operand)
  | .assign target value => return .assign (← f target) (← f value)
  | .strEmbed value => return .strEmbed (← value.mapM f)
  | .regexp pattern stop => return .regexp (← pattern.mapM f) (← stop.mapM f)
  | .array elts => return .array (← elts.mapM f)
  | .dict keys values => do
    let (keys, values) ← mapPairsM f keys values
    return .dict keys values
  | .starred value => return .starred (← f value)
  | .keyword arg value => return .keyword arg (← value.mapM f)
  | .branch test body orelse => return .branch (← f test) (← body.mapM f) (← orelse.mapM f)
  | .loop test body => return .loop (← f test) (← body.mapM f)
  | .each target iter body => return .each (← f target) (← f iter) (← body.mapM f)
  | .guarded body rescue orelse ensure =>
    return .guarded (← body.mapM f) (← rescue.mapM f) (← orelse.mapM f) (← ensure.mapM f)
  | .handler exceptions binder body orelse =>
    return .handler (← exceptions.mapM f) (← binder.mapM f) (← body.mapM f) (← orelse.mapM f)
  | .ret value => return .ret (← value.mapM f)
  | .yield value => return .yield (← value.mapM f)
  | .subscript value part => return .subscript (← f value) (← part.mapM f)
  | .index value => return .index (← f value)
  | .slice lower upper => return .slice (← lower.mapM f) (← upper.mapM f)
  | .undef targets => return .undef (← targets.mapM f)
  | .name id kind => return .name id kind
  | .symbol id => return .symbol id
  | .str value => return .str value
  | .int text => return .int text
  | .float text => return .float text
  | .control kind => return .control kind
  | .void => return .void

def paired : Kind α → Kind α
  | .dict keys values => .dict (keys.take values.length) (values.take keys.length)
  | kind => kind

def tag : Kind α → String
  | .block _ => "block"
  | .moduleDef .. => "module"
  | .classDef .. => "class"
  | .function .. => "def"
  | .call .. => "call"
  | .member .. => "attribute"
  | .binary .. => "binary"
  | .unary .. => "unary"
  | .assign .. => "assign"
  | .name .. => "name"
  | .symbol _ => "symbol"
  | .str _ => "string"
  | .strEmbed _ => "string_embexpr"
  | .regexp .. => "regexp"
  | .int _ => "int"
  | .float _ => "float"
  | .array _ => "array"
  | .dict .. => "hash"
  | .starred _ => "star"
  | .keyword .. => "keyword"
  | .branch .. => "if"
  | .loop .. => "while"
  | .each .. => "for"
  | .guarded .. => "begin"
  | .handler .. => "rescue"
  | .ret _ => "return"
  | .yield _ => "yield"
  | .subscript .. => "subscript"
  | .index _ => "index"
  | .slice .. => "slice"
  | .control _ => "control"
  | .undef _ => "undef"
  | .void => "void"

end Kind

end RubyInfer
