import RubyInfer.Json.Document
import RubyInfer.Syntax.Arena

/-!
The stored form of a tree: a JSON object with one field for every part. `Ast.toJson` writes it,
`Ast.ofDocument?` reads it back. A reader takes a record as an object, in which fields that it does
not know are passed over and a known one may stand only once, or as an array of all its fields in
order.
-/

namespace RubyInfer

namespace Codec

/-! ## Writing -/

def node (id : NodeId) : Json := .nat id

def option {α : Type} (write : α → Json) : Option α → Json
  | some a => write a
  | none => .null

def list {α : Type} (write : α → Json) (items : List α) : Json := .array (items.map write)

def variant (name : String) (fields : List (String × Json)) : Json := .object [(name, .object fields)]

def span (s : Span) : Json :=
  .object [("start", .nat s.start.toNat), ("end", .nat s.stop.toNat), ("line", .nat s.line.toNat),
    ("col", .nat s.col.toNat)]

def params (p : Params NodeId) : Json :=
  .object [("positional", list node p.positional), ("defaults", list node p.defaults),
    ("rest", option node p.rest),
    ("rest_kw", option node p.restKw), ("after_rest", list node p.afterRest),
    ("block_arg", option node p.blockArg)]

def kind : Kind NodeId → Json
  | .block stmts => variant "Block" [("stmts", list node stmts)]
  | .moduleDef locator body doc =>
    variant "Module" [("locator", node locator), ("body", option node body), ("doc", option .string doc)]
  | .classDef locator base body isStatic doc =>
    variant "Class" [("locator", node locator), ("base", option node base), ("body", option node body),
      ("is_static", .bool isStatic), ("doc", option .string doc)]
  | .function locator ps body isLambda doc =>
    variant "Function" [("locator", option node locator), ("params", params ps), ("body", option node body),
      ("is_lambda", .bool isLambda), ("doc", option .string doc)]
  | .call func args keywords star blockArg =>
    variant "Call" [("func", node func), ("args", list node args), ("keywords", list node keywords),
      ("star", option node star), ("block_arg", option node blockArg)]
  | .member target attr => variant "Attribute" [("target", node target), ("attr", node attr)]
  | .binary op left right =>
    variant "BinOp" [("op", .string op.name), ("left", node left), ("right", node right)]
  | .unary op operand => variant "UnaryOp" [("op", .string op.name), ("operand", node operand)]
  | .assign target value => variant "Assign" [("target", node target), ("value", node value)]
  | .name id k => variant "Name" [("id", .string id), ("kind", .string k.name)]
  | .symbol id => variant "Symbol" [("id", .string id)]
  | .str value => variant "Str" [("value", .string value)]
  | .strEmbed value => variant "StrEmbed" [("value", option node value)]
  | .regexp pattern stop => variant "Regexp" [("pattern", option node pattern), ("end", option node stop)]
  | .int text => variant "Int" [("text", .string text)]
  | .float text => variant "Float" [("text", .string text)]
  | .array elts => variant "Array" [("elts", list node elts)]
  | .dict keys values => variant "Dict" [("keys", list node keys), ("values", list node values)]
  | .starred value => variant "Starred" [("value", node value)]
  | .keyword arg value => variant "Keyword" [("arg", .string arg), ("value", option node value)]
  | .branch test body orelse =>
    variant "If" [("test", node test), ("body", option node body), ("orelse", option node orelse)]
  | .loop test body => variant "While" [("test", node test), ("body", option node body)]
  | .each target iter body =>
    variant "For" [("target", node target), ("iter", node iter), ("body", option node body)]
  | .guarded body rescue orelse ensure =>
    variant "Try" [("body", option node body), ("rescue", option node rescue), ("orelse", option node orelse),
      ("finally", option node ensure)]
  | .handler exceptions binder body orelse =>
    variant "Handler" [("exceptions", list node exceptions), ("binder", option node binder),
      ("body", option node body), ("orelse", option node orelse)]
  | .ret value => variant "Return" [("value", option node value)]
  | .yield value => variant "Yield" [("value", option node value)]
  | .subscript value part => variant "Subscript" [("value", node value), ("slice", option node part)]
  | .index value => variant "Index" [("value", node value)]
  | .slice lower upper => variant "Slice" [("lower", option node lower), ("upper", option node upper)]
  | .control c => variant "Control" [("kind", .string c.name)]
  | .undef targets => variant "Undef" [("targets", list node targets)]
  | .void => .string "Void"

def arenaNode (n : Node) : Json :=
  .object [("kind", kind n.kind), ("span", span n.span), ("parent", option node n.parent),
    ("children", list node n.children)]

/-! ## Reading -/

abbrev Slot := Option Document

def known (names : List String) (fields : List (Option String × Document)) : List String :=
  fields.filterMap (fun f => f.1.filter names.contains)

def record? (names : List String) : Document → Option (List Slot)
  | .object fields =>
    if fields.all (fun f => f.1.isSome) ∧ (known names fields).Nodup then
      some (names.map (fun name => (fields.find? (fun f => f.1 = some name)).map Prod.snd))
    else none
  | .array items => if items.length = names.length then some (items.map some) else none
  | _ => none

def readWord? (limit : Nat) : Document → Option Nat
  | .number (some (.integer (.ofNat n))) => if n < limit then some n else none
  | _ => none

def readNode? : Document → Option NodeId := readWord? (Nat.pow 2 32)

def readText? : Document → Option String
  | .string s => s
  | _ => none

def readBool? : Document → Option Bool
  | .bool b => some b
  | _ => none

def readList? {α : Type} (read : Document → Option α) : Document → Option (List α)
  | .array items => items.mapM read
  | _ => none

def need? {α : Type} (read : Document → Option α) : Slot → Option α
  | some v => read v
  | none => none

def may? {α : Type} (read : Document → Option α) : Slot → Option (Option α)
  | none => some none
  | some .null => some none
  | some v => (read v).map some

def choice? : Document → Option (String × Slot)
  | .string (some name) => some (name, none)
  | .object [(some name, content)] => some (name, some content)
  | _ => none

/-- A name that stands alone, which may also be written with null as its content. -/
def bare? : Document → Option String := fun v => do
  match ← choice? v with
  | (name, none) => pure name
  | (name, some .null) => pure name
  | _ => none

def readOp? (v : Document) : Option Op := (bare? v).bind Op.ofName?

def readNameKind? (v : Document) : Option NameKind := (bare? v).bind NameKind.ofName?

def readControl? (v : Document) : Option Control := (bare? v).bind Control.ofName?

def readSpan? (v : Document) : Option Span := do
  match ← record? ["start", "end", "line", "col"] v with
  | [start, stop, line, col] =>
    let start ← need? (readWord? (Nat.pow 2 64)) start
    let stop ← need? (readWord? (Nat.pow 2 64)) stop
    let line ← need? (readWord? (Nat.pow 2 32)) line
    let col ← need? (readWord? (Nat.pow 2 32)) col
    pure ⟨.ofNat start, .ofNat stop, .ofNat line, .ofNat col⟩
  | _ => none

def readParams? (v : Document) : Option (Params NodeId) := do
  match ← record? ["positional", "defaults", "rest", "rest_kw", "after_rest", "block_arg"] v with
  | [positional, defaults, rest, restKw, afterRest, blockArg] =>
    let positional ← need? (readList? readNode?) positional
    let defaults ← need? (readList? readNode?) defaults
    let rest ← may? readNode? rest
    let restKw ← may? readNode? restKw
    let afterRest ← need? (readList? readNode?) afterRest
    let blockArg ← may? readNode? blockArg
    pure ⟨positional, defaults, rest, restKw, afterRest, blockArg⟩
  | _ => none

def layout : List (String × List String) :=
  [("Block", ["stmts"]), ("Module", ["locator", "body", "doc"]),
    ("Class", ["locator", "base", "body", "is_static", "doc"]),
    ("Function", ["locator", "params", "body", "is_lambda", "doc"]),
    ("Call", ["func", "args", "keywords", "star", "block_arg"]), ("Attribute", ["target", "attr"]),
    ("BinOp", ["op", "left", "right"]), ("UnaryOp", ["op", "operand"]), ("Assign", ["target", "value"]),
    ("Name", ["id", "kind"]), ("Symbol", ["id"]), ("Str", ["value"]), ("StrEmbed", ["value"]),
    ("Regexp", ["pattern", "end"]),
    ("Int", ["text"]), ("Float", ["text"]), ("Array", ["elts"]), ("Dict", ["keys", "values"]),
    ("Starred", ["value"]),
    ("Keyword", ["arg", "value"]), ("If", ["test", "body", "orelse"]), ("While", ["test", "body"]),
    ("For", ["target", "iter", "body"]), ("Try", ["body", "rescue", "orelse", "finally"]),
    ("Handler", ["exceptions", "binder", "body", "orelse"]), ("Return", ["value"]), ("Yield", ["value"]),
    ("Subscript", ["value", "slice"]), ("Index", ["value"]), ("Slice", ["lower", "upper"]),
    ("Control", ["kind"]), ("Undef", ["targets"])]

def readVariant? : String → List Slot → Option (Kind NodeId)
  | "Block", [stmts] => return .block (← need? (readList? readNode?) stmts)
  | "Module", [locator, body, doc] =>
    return .moduleDef (← need? readNode? locator) (← may? readNode? body) (← may? readText? doc)
  | "Class", [locator, base, body, isStatic, doc] =>
    return .classDef (← need? readNode? locator) (← may? readNode? base) (← may? readNode? body)
      (← need? readBool? isStatic) (← may? readText? doc)
  | "Function", [locator, ps, body, isLambda, doc] =>
    return .function (← may? readNode? locator) (← need? readParams? ps) (← may? readNode? body)
      (← need? readBool? isLambda) (← may? readText? doc)
  | "Call", [func, args, keywords, star, blockArg] =>
    return .call (← need? readNode? func) (← need? (readList? readNode?) args)
      (← need? (readList? readNode?) keywords) (← may? readNode? star) (← may? readNode? blockArg)
  | "Attribute", [target, attr] => return .member (← need? readNode? target) (← need? readNode? attr)
  | "BinOp", [op, left, right] =>
    return .binary (← need? readOp? op) (← need? readNode? left) (← need? readNode? right)
  | "UnaryOp", [op, operand] => return .unary (← need? readOp? op) (← need? readNode? operand)
  | "Assign", [target, value] => return .assign (← need? readNode? target) (← need? readNode? value)
  | "Name", [id, k] => return .name (← need? readText? id) (← need? readNameKind? k)
  | "Symbol", [id] => return .symbol (← need? readText? id)
  | "Str", [value] => return .str (← need? readText? value)
  | "StrEmbed", [value] => return .strEmbed (← may? readNode? value)
  | "Regexp", [pattern, stop] => return .regexp (← may? readNode? pattern) (← may? readNode? stop)
  | "Int", [text] => return .int (← need? readText? text)
  | "Float", [text] => return .float (← need? readText? text)
  | "Array", [elts] => return .array (← need? (readList? readNode?) elts)
  | "Dict", [keys, values] =>
    return .dict (← need? (readList? readNode?) keys) (← need? (readList? readNode?) values)
  | "Starred", [value] => return .starred (← need? readNode? value)
  | "Keyword", [arg, value] => return .keyword (← need? readText? arg) (← may? readNode? value)
  | "If", [test, body, orelse] =>
    return .branch (← need? readNode? test) (← may? readNode? body) (← may? readNode? orelse)
  | "While", [test, body] => return .loop (← need? readNode? test) (← may? readNode? body)
  | "For", [target, iter, body] =>
    return .each (← need? readNode? target) (← need? readNode? iter) (← may? readNode? body)
  | "Try", [body, rescue, orelse, ensure] =>
    return .guarded (← may? readNode? body) (← may? readNode? rescue) (← may? readNode? orelse)
      (← may? readNode? ensure)
  | "Handler", [exceptions, binder, body, orelse] =>
    return .handler (← need? (readList? readNode?) exceptions) (← may? readNode? binder)
      (← may? readNode? body) (← may? readNode? orelse)
  | "Return", [value] => return .ret (← may? readNode? value)
  | "Yield", [value] => return .yield (← may? readNode? value)
  | "Subscript", [value, part] => return .subscript (← need? readNode? value) (← may? readNode? part)
  | "Index", [value] => return .index (← need? readNode? value)
  | "Slice", [lower, upper] => return .slice (← may? readNode? lower) (← may? readNode? upper)
  | "Control", [c] => return .control (← need? readControl? c)
  | "Undef", [targets] => return .undef (← need? (readList? readNode?) targets)
  | _, _ => none

def readKind? (v : Document) : Option (Kind NodeId) := do
  match ← choice? v with
  | ("Void", none) => pure .void
  | ("Void", some .null) => pure .void
  | (name, some content) => readVariant? name (← record? (← layout.lookup name) content)
  | (_, none) => none

def readArenaNode? (v : Document) : Option Node := do
  match ← record? ["kind", "span", "parent", "children"] v with
  | [kind, span, parent, children] =>
    let kind ← need? readKind? kind
    let span ← need? readSpan? span
    let parent ← may? readNode? parent
    let children ← need? (readList? readNode?) children
    pure ⟨kind, span, parent, children⟩
  | _ => none

end Codec

namespace Ast

def toJson (a : Ast) : Json :=
  .object [("file", .string a.file.text), ("content_hash", .nat a.hash.toNat),
    ("nodes", Codec.list Codec.arenaNode a.nodes.toList), ("root", Codec.node a.root)]

def ofDocument? (v : Document) : Option Ast := do
  match ← Codec.record? ["file", "content_hash", "nodes", "root"] v with
  | [file, hash, nodes, root] =>
    let file ← Codec.need? Codec.readText? file
    let hash ← Codec.need? (Codec.readWord? (Nat.pow 2 64)) hash
    let nodes ← Codec.need? (Codec.readList? Codec.readArenaNode?) nodes
    let root ← Codec.need? Codec.readNode? root
    pure ⟨⟨file⟩, .ofNat hash, nodes.toArray, root⟩
  | _ => none

end Ast

end RubyInfer
