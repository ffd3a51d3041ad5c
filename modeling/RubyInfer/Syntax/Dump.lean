import RubyInfer.Json.Basic
import RubyInfer.Syntax.Arena

/-!
Reading a dump. A dump is a tree of JSON objects; `type` says what a node is, the other fields hold
its parts and its position. `Ast.ofDump` builds the arena, spells out compound operators in
primitive ones, and stops at the first part that it cannot read.
-/

namespace RubyInfer

inductive Operator
  | primitive (op : Op)
  | notEqual | notMatch | atMost | atLeast | notIn
deriving DecidableEq

namespace Operator

def table : List (String × Operator) :=
  [("+", .primitive .add), ("+@", .primitive .add), ("-", .primitive .sub), ("-@", .primitive .sub),
    ("<=>", .primitive .sub),
    ("*", .primitive .mul), ("/", .primitive .div), ("%", .primitive .mod), ("**", .primitive .pow),
    ("=~", .primitive .isMatch),
    ("==", .primitive .equal), ("===", .primitive .equal), ("<", .primitive .lt), (">", .primitive .gt),
    ("&", .primitive .bitAnd), ("|", .primitive .bitOr), ("^", .primitive .bitXor), ("in", .primitive .isIn),
    ("<<", .primitive .lShift), (">>", .primitive .rShift), ("~", .primitive .invert),
    ("and", .primitive .and),
    ("&&", .primitive .and), ("or", .primitive .or), ("||", .primitive .or),
    ("not", .primitive .not), ("!", .primitive .not),
    ("defined", .primitive .defined), ("!=", .notEqual), ("not_eq", .notEqual), ("!~", .notMatch),
    ("<=", .atMost), (">=", .atLeast), ("not in", .notIn)]

def ofName? (name : String) : Option Operator := table.lookup name

def name : Operator → String
  | .primitive op => op.name
  | .notEqual => "NotEqual"
  | .notMatch => "NotMatch"
  | .atMost => "LtE"
  | .atLeast => "GtE"
  | .notIn => "NotIn"

end Operator

namespace Dump

inductive Error
  | missingType (node : Json)
  | missingField (type key : String)
  | notList (key : String) (found : Json)
  | notMap (found : Json)
  | illegalOperator (name : String)
  | unsupportedUnary (op : Operator)
  | unexpectedNode (type : String)
  | owned (child : NodeId)

def Error.message : Error → String
  | .missingType node => "node without type: " ++ node.render
  | .missingField type key => type ++ " node without `" ++ key ++ "`"
  | .notList key found => "`" ++ key ++ "` is not a list: " ++ found.render
  | .notMap found => "not a map: " ++ found.render
  | .illegalOperator name => "illegal operator: " ++ name
  | .unsupportedUnary op => "unsupported unary operator: " ++ op.name
  | .unexpectedNode type => "unexpected ast node: " ++ type
  | .owned child => "node NodeId(" ++ Nat.repr child ++ ") already has a parent"

abbrev Fields := List (String × Json)

abbrev Convert := StateT Builder (Except Error)

/-- How a part is converted. A value that is no node gives nothing. -/
abbrev Visit := Json → Convert (Option NodeId)

/-! ## Fields -/

def typeOf? (fields : Fields) : Option String := (fields.lookup "type").bind Json.asString?

def number? (fields : Fields) (key : String) : Option UInt64 :=
  match fields.lookup key with
  | some (.number n) => some n.toOffset
  | _ => none

def text? (fields : Fields) (key : String) : Option String :=
  match fields.lookup key with
  | some (.string s) => some s
  | some (.number n) => some n.text
  | _ => none

def text (fields : Fields) (key : String) : String := (text? fields key).getD ""

def doc? (fields : Fields) : Option String :=
  match fields.lookup "doc" with
  | some (.object inner) => text? inner "id"
  | some (.string s) => some s
  | _ => none

def spanOf (fields : Fields) : Span :=
  .new ((number? fields "start").getD 0) ((number? fields "end").getD 1)
    ((number? fields "start_line").getD 1).toUInt32
    (((number? fields "start_col").map (fun c => c.toUInt32 + 1)).getD 1)

def isNode : Json → Bool
  | .object (_ :: _) => true
  | _ => false

def operatorName : Option Json → String
  | some (.object inner) => text inner "name"
  | _ => ""

def operator (name : String) : Convert Operator :=
  match Operator.ofName? name with
  | some op => pure op
  | none => throw (.illegalOperator name)

/-! ## Parts -/

/-- Goes on with what was built, unless a node got a second parent. -/
def keep (built : NodeId × Builder) : Convert NodeId :=
  match built.2.clash with
  | some child => throw (.owned child)
  | none => do
    set built.2
    pure built.1

def push (kind : Kind NodeId) (span : Span) : Convert NodeId := do keep ((← get).push kind span)

def copy (id : NodeId) : Convert NodeId := do keep ((← get).deepCopy id)

def optional (visit : Visit) (fields : Fields) (key : String) : Convert (Option NodeId) :=
  match fields.lookup key with
  | some v => visit v
  | none => pure none

def required (visit : Visit) (fields : Fields) (key type : String) : Convert NodeId := do
  match ← optional visit fields key with
  | some id => pure id
  | none => throw (.missingField type key)

def nodes (visit : Visit) : List Json → Convert (List NodeId)
  | [] => pure []
  | .object fields :: rest => do
    let found ← visit (.object fields)
    let more ← nodes visit rest
    pure (found.toList ++ more)
  | other :: _ => throw (.notMap other)

def list (visit : Visit) (fields : Fields) (key : String) : Convert (List NodeId) :=
  match fields.lookup key with
  | none => pure []
  | some .null => pure []
  | some (.array items) => nodes visit items
  | some other => throw (.notList key other)

def params (visit : Visit) : Option Json → Convert (Params NodeId)
  | some (.object fields) => do
    let positional ← list visit fields "positional"
    let defaults ← list visit fields "defaults"
    let rest ← optional visit fields "rest"
    let restKw ← optional visit fields "rest_kw"
    let afterRest ← list visit fields "after_rest"
    let blockArg ← optional visit fields "blockarg"
    pure ⟨positional, defaults, rest, restKw, afterRest, blockArg⟩
  | _ => pure {}

def keywordForm? (fields : Fields) : Option (String × Json) := do
  guard (typeOf? fields = some "assign")
  let target ← (← fields.lookup "target").asObject?
  guard (typeOf? target = some "name")
  let arg ← text? target "id"
  let value ← fields.lookup "value"
  pure (arg, value)

def arguments (visit : Visit) : List Json → Convert (List NodeId × List NodeId)
  | [] => pure ([], [])
  | .object fields :: rest => do
    match keywordForm? fields with
    | some (arg, value) =>
      let value ← visit value
      let keyword ← push (.keyword arg value) (spanOf fields)
      let (args, keywords) ← arguments visit rest
      pure (args, keyword :: keywords)
    | none =>
      let found ← visit (.object fields)
      let (args, keywords) ← arguments visit rest
      pure (found.toList ++ args, keywords)
  | other :: _ => throw (.notMap other)

def positional (visit : Visit) (args : Fields) : Convert (List NodeId × List NodeId) :=
  match args.lookup "positional" with
  | some (.array items) => arguments visit items
  | _ => pure ([], [])

def call (visit : Visit) (fields : Fields) : Convert (Kind NodeId) := do
  let func ← required visit fields "func" "call"
  match fields.lookup "args" with
  | some (.object inner) =>
    let (args, keywords) ← positional visit inner
    let star ← optional visit inner "star"
    let blockArg ← optional visit inner "blockarg"
    pure (.call func args keywords star blockArg)
  | _ => pure (.call func [] [] none none)

def entries (visit : Visit) : List Json → Convert (List NodeId × List NodeId)
  | [] => pure ([], [])
  | .object fields :: rest =>
    if (fields.lookup "key").any isNode && (fields.lookup "value").any isNode then do
      let key ← required visit fields "key" "hash"
      let value ← required visit fields "value" "hash"
      let (keys, values) ← entries visit rest
      pure (key :: keys, value :: values)
    else entries visit rest
  | _ :: rest => entries visit rest

def pairs (visit : Visit) (fields : Fields) : Convert (List NodeId × List NodeId) :=
  match fields.lookup "entries" with
  | some (.array items) => entries visit items
  | _ => pure ([], [])

/-- `!=`, `!~` and `not in` are negations; `<=` and `>=` are a strict comparison or an equality, on
copies of both sides. -/
def binary (visit : Visit) (fields : Fields) (span : Span) : Convert NodeId := do
  let left ← required visit fields "left" "binary"
  let right ← required visit fields "right" "binary"
  let name := match fields.lookup "op" with
    | some (.string s) => s
    | other => operatorName other
  let negated (op : Op) : Convert NodeId := do
    push (.unary .not (← push (.binary op left right) span)) span
  let orEqual (op : Op) : Convert NodeId := do
    let left2 ← copy left
    let right2 ← copy right
    let strict ← push (.binary op left right) span
    let equal ← push (.binary .equal left2 right2) span
    push (.binary .or strict equal) span
  match ← operator name with
  | .primitive op => push (.binary op left right) span
  | .notEqual => negated .equal
  | .notMatch => negated .isMatch
  | .notIn => negated .isIn
  | .atMost => orEqual .lt
  | .atLeast => orEqual .gt

/-- A slice covers both its ends; one without an end stands where the whole subscript does. -/
def slicePlace (b : Builder) (whole : Span) : (lower upper : Option NodeId) → Span
  | some l, some u => (b.span l).cover (b.span u)
  | _, _ => whole

def subscript (visit : Visit) (fields : Fields) (span : Span) : Convert (Option NodeId) := do
  let finish (part : Option NodeId) : Convert (Option NodeId) := do
    let value ← required visit fields "value" "subscript"
    some <$> push (.subscript value part) span
  match fields.lookup "slice" with
  | some (.array items) =>
    match items.filter isNode with
    | [one] =>
      match ← visit one with
      | some inner =>
        let place := (← get).span inner
        finish (some (← push (.index inner) place))
      | none => finish none
    | [low, high] =>
      let lower ← visit low
      let upper ← visit high
      let place := slicePlace (← get) span lower upper
      finish (some (← push (.slice lower upper) place))
    | _ => optional visit fields "value"
  | some v => finish (← visit v)
  | none => finish none

/-! ## Nodes -/

inductive Form
  | program | module | block | function
      (isLambda : Bool) | call | member | binary | unary | void | control (kind : Control)
  | classDef | undef | hash | rescue | each | branch | loop | keyword | array | args | range |
      star | arg | ret | yield | string
  | embedded | regexp | subscript | guarded | assign | name (kind : NameKind) | symbol | int | float

def Form.table : List (String × Form) :=
  [("program", .program), ("module", .module), ("block", .block), ("def", .function false),
    ("lambda", .function true),
    ("call", .call), ("attribute", .member), ("binary", .binary), ("unary", .unary),
    ("void", .void), ("break", .control .break),
    ("continue", .control .next), ("redo", .control .redo), ("retry", .control .retry),
    ("class", .classDef), ("undef", .undef),
    ("hash", .hash), ("rescue", .rescue), ("for", .each), ("if", .branch), ("while", .loop),
    ("keyword", .keyword),
    ("array", .array), ("args", .args), ("dot2", .range), ("dot3", .range), ("star", .star),
    ("arg", .arg), ("return", .ret),
    ("yield", .yield), ("string", .string), ("string_embexpr", .embedded), ("regexp", .regexp),
    ("subscript", .subscript),
    ("begin", .guarded), ("assign", .assign), ("name", .name .plain), ("cvar", .name .cvar),
    ("ivar", .name .ivar),
    ("gvar", .name .gvar), ("symbol", .symbol), ("int", .int), ("float", .float)]

def Form.ofName? (type : String) : Option Form := Form.table.lookup type

def wrapsInstanceMethods (fields : Fields) : Bool :=
  match fields.lookup "name" with
  | some (.object inner) =>
    typeOf? inner = some "name" &&
      match (inner.lookup "id").bind Json.asString? with
      | some id => "InstanceMethods".toList.isPrefixOf id.toList
      | none => false
  | _ => false

def build (visit : Visit) (type : String) (fields : Fields) (form : Form) : Convert (Option NodeId) := do
  let span := spanOf fields
  let put (kind : Kind NodeId) : Convert (Option NodeId) := some <$> push kind span
  let part (key : String) : Convert (Option NodeId) := optional visit fields key
  let need (key : String) : Convert NodeId := required visit fields key type
  match form with
  | .program => part "body"
  | .module =>
    if wrapsInstanceMethods fields then part "body"
    else
      let locator ← need "name"
      let body ← part "body"
      put (.moduleDef locator body (doc? fields))
  | .block => put (.block (← list visit fields "stmts"))
  | .function isLambda =>
    let locator ← part "name"
    let params ← params visit (fields.lookup "params")
    let body ← part "body"
    put (.function locator params body isLambda (doc? fields))
  | .call => put (← call visit fields)
  | .member =>
    let target ← need "value"
    let attr ← need "attr"
    put (.member target attr)
  | .binary => some <$> binary visit fields span
  | .unary =>
    match ← operator (operatorName (fields.lookup "op")) with
    | .primitive op => put (.unary op (← need "operand"))
    | other => throw (.unsupportedUnary other)
  | .void => put .void
  | .control kind => put (.control kind)
  | .classDef =>
    let locator ← need "name"
    let base ← part "super"
    let body ← part "body"
    let isStatic := ((fields.lookup "static").bind Json.asBool?).getD false
    put (.classDef locator base body isStatic (doc? fields))
  | .undef => put (.undef (← list visit fields "names"))
  | .hash =>
    let (keys, values) ← pairs visit fields
    put (.dict keys values)
  | .rescue =>
    let exceptions ← list visit fields "exceptions"
    let binder ← part "binder"
    let body ← part "handler"
    let orelse ← part "else"
    put (.handler exceptions binder body orelse)
  | .each =>
    let target ← need "target"
    let iter ← need "iter"
    let body ← part "body"
    put (.each target iter body)
  | .branch =>
    let test ← need "test"
    let body ← part "body"
    let orelse ← part "else"
    put (.branch test body orelse)
  | .loop =>
    let test ← need "test"
    let body ← part "body"
    put (.loop test body)
  | .keyword => put (.keyword (text fields "arg") (← part "value"))
  | .array => put (.array (← list visit fields "elts"))
  | .args =>
    match fields.lookup "positional" with
    | some (.array _) => put (.array (← list visit fields "positional"))
    | _ => put (.array (← list visit fields "star"))
  | .range =>
    let low ← part "from"
    let high ← part "to"
    put (.array (low.toList ++ high.toList))
  | .star => put (.starred (← need "value"))
  | .arg => put (.name (text fields "arg") .plain)
  | .ret => put (.ret (← part "value"))
  | .yield => put (.yield (← part "value"))
  | .string => put (.str (text fields "id"))
  | .embedded => put (.strEmbed (← part "value"))
  | .regexp =>
    let pattern ← part "pattern"
    let stop ← part "regexp_end"
    put (.regexp pattern stop)
  | .subscript => subscript visit fields span
  | .guarded =>
    let body ← part "body"
    let rescue ← part "rescue"
    let orelse ← part "else"
    let ensure ← part "ensure"
    put (.guarded body rescue orelse ensure)
  | .assign =>
    let target ← need "target"
    let value ← need "value"
    put (.assign target value)
  | .name kind => put (.name (text fields "id") kind)
  | .symbol => put (.symbol (text fields "id"))
  | .int => put (.int (text fields "value"))
  | .float => put (.float (text fields "value"))

def convertWith (visit : Visit) : Visit
  | .object (field :: rest) =>
    let fields := field :: rest
    match typeOf? fields with
    | none => throw (.missingType (.object fields))
    | some type =>
      match Form.ofName? type with
      | none => throw (.unexpectedNode type)
      | some form => build visit type fields form
  | _ => pure none

def convertWithin : (levels : Nat) → Visit
  | 0 => fun _ => pure none
  | levels + 1 => convertWith (convertWithin levels)

def convert (v : Json) : Convert (Option NodeId) := convertWithin v.height v

/-- The root of a whole dump; a dump without a root is an empty block. -/
def root (v : Json) : Convert NodeId := do
  match ← convert v with
  | some id => pure id
  | none => push (.block []) (.new 0 0 1 1)

end Dump

def Ast.ofDump (file : Path) (hash : UInt64) (v : Json) : Except Dump.Error Ast := do
  let (root, b) ← (Dump.root v).run {}
  pure (b.finish file hash root)

end RubyInfer
