import RubyInfer.Proofs.Json.Height
import RubyInfer.Syntax.Dump

/-!
# Plain trees

A tree that holds its subtrees, without indices, parents or a place where it is stored. There are
two ways to one:

* `Tree.ofNode` unfolds the node of an arena;
* `Tree.ofDump` reads a dump without any arena. It says what each form of node stands for, in one
  line for most forms. Its parts are read from left to right as they are written there, so the first
  part that cannot be read gives the error. Which fields there are and what they default to is said
  here once more, in its own words.

`Tree.ofDump` is given by levels of nesting; `Tree.ofDump_eq` is its recursion without them.
-/

namespace RubyInfer

inductive Tree
  | node (kind : Kind Tree) (span : Span)

def Operator.tree (op : Operator) (left right : Tree) (span : Span) : Tree :=
  let compare (op : Op) : Tree := .node (.binary op left right) span
  let negated (op : Op) : Tree := .node (.unary .not (compare op)) span
  let orEqual (op : Op) : Tree := .node (.binary .or (compare op) (compare .equal)) span
  match op with
  | .primitive op => compare op
  | .notEqual => negated .equal
  | .notMatch => negated .isMatch
  | .notIn => negated .isIn
  | .atMost => orEqual .lt
  | .atLeast => orEqual .gt

namespace Tree

open Dump (Error Fields Form)

def span : Tree → Span
  | .node _ span => span

def empty : Tree := .node (.block []) (.new 0 0 1 1)

def ofNode (nodes : Array Node) (id : NodeId) : Option Tree := do
  let n ← nodes[id]?
  let kind ← n.kind.mapM fun child => if _before : child < id then ofNode nodes child else none
  pure (.node kind n.span)
termination_by id

/-! ## Fields of a dump -/

def type? (fields : Fields) : Option String :=
  match fields.lookup "type" with
  | some (.string type) => some type
  | _ => none

def word? (fields : Fields) (key : String) : Option String :=
  match fields.lookup key with
  | some (.string s) => some s
  | some (.number n) => some n.text
  | _ => none

def word (fields : Fields) (key : String) : String :=
  match fields.lookup key with
  | some (.string s) => s
  | some (.number n) => n.text
  | _ => ""

def doc (fields : Fields) : Option String :=
  match fields.lookup "doc" with
  | some (.object inner) => word? inner "id"
  | some (.string s) => some s
  | _ => none

/-- Where a node stands. A dump counts columns from zero. -/
def place (fields : Fields) : Span :=
  let offset (key : String) (otherwise : UInt64) : UInt64 :=
    match fields.lookup key with
    | some (.number n) => n.toOffset
    | _ => otherwise
  .new (offset "start" 0) (offset "end" 1) (offset "start_line" 1).toUInt32
    ((offset "start_col" 0).toUInt32 + 1)

def isPart : Json → Bool
  | .object fields => !fields.isEmpty
  | _ => false

/-- A keyword argument is written as an assignment to a plain name. -/
def namedArgument? (fields : Fields) : Option (String × Json) :=
  match fields.lookup "target", fields.lookup "value" with
  | some (.object target), some value =>
    if type? fields = some "assign" ∧ type? target = some "name" then
      (word? target "id").map (·, value) else none
  | _, _ => none

/-- The module that a dump puts around the methods of an instance, for whose name only the beginning
counts. -/
def holdsMethods (fields : Fields) : Bool :=
  match fields.lookup "name" with
  | some (.object inner) =>
    type? inner = some "name" &&
      match inner.lookup "id" with
      | some (.string id) => id.toList.take 15 = "InstanceMethods".toList
      | _ => false
  | _ => false

def symbol : Option Json → String
  | some (.object inner) => word inner "name"
  | _ => ""

def operator? : String → Option Operator
  | "+" | "+@" => some (.primitive .add)
  | "-" | "-@" | "<=>" => some (.primitive .sub)
  | "*" => some (.primitive .mul)
  | "/" => some (.primitive .div)
  | "%" => some (.primitive .mod)
  | "**" => some (.primitive .pow)
  | "=~" => some (.primitive .isMatch)
  | "==" | "===" => some (.primitive .equal)
  | "<" => some (.primitive .lt)
  | ">" => some (.primitive .gt)
  | "&" => some (.primitive .bitAnd)
  | "|" => some (.primitive .bitOr)
  | "^" => some (.primitive .bitXor)
  | "in" => some (.primitive .isIn)
  | "<<" => some (.primitive .lShift)
  | ">>" => some (.primitive .rShift)
  | "~" => some (.primitive .invert)
  | "and" | "&&" => some (.primitive .and)
  | "or" | "||" => some (.primitive .or)
  | "not" | "!" => some (.primitive .not)
  | "defined" => some (.primitive .defined)
  | "!=" | "not_eq" => some .notEqual
  | "!~" => some .notMatch
  | "<=" => some .atMost
  | ">=" => some .atLeast
  | "not in" => some .notIn
  | _ => none

def form? : String → Option Form
  | "program" => some .program
  | "module" => some .module
  | "class" => some .classDef
  | "def" => some (.function false)
  | "lambda" => some (.function true)
  | "block" => some .block
  | "call" => some .call
  | "attribute" => some .member
  | "subscript" => some .subscript
  | "binary" => some .binary
  | "unary" => some .unary
  | "assign" => some .assign
  | "name" => some (.name .plain)
  | "ivar" => some (.name .ivar)
  | "cvar" => some (.name .cvar)
  | "gvar" => some (.name .gvar)
  | "arg" => some .arg
  | "args" => some .args
  | "keyword" => some .keyword
  | "star" => some .star
  | "symbol" => some .symbol
  | "string" => some .string
  | "string_embexpr" => some .embedded
  | "regexp" => some .regexp
  | "int" => some .int
  | "float" => some .float
  | "array" => some .array
  | "hash" => some .hash
  | "dot2" | "dot3" => some .range
  | "if" => some .branch
  | "while" => some .loop
  | "for" => some .each
  | "begin" => some .guarded
  | "rescue" => some .rescue
  | "break" => some (.control .break)
  | "continue" => some (.control .next)
  | "redo" => some (.control .redo)
  | "retry" => some (.control .retry)
  | "return" => some .ret
  | "yield" => some .yield
  | "undef" => some .undef
  | "void" => some .void
  | _ => none

/-! ## Parts of a dump -/

abbrev Read := Json → Except Error (Option Tree)

variable (read : Read)

def optional (fields : Fields) (key : String) : Except Error (Option Tree) :=
  match fields.lookup key with
  | some v => read v
  | none => pure none

def required (fields : Fields) (key type : String) : Except Error Tree := do
  match ← optional read fields key with
  | some t => pure t
  | none => throw (.missingField type key)

def item : Json → Except Error (Option Tree)
  | .object fields => read (.object fields)
  | other => throw (.notMap other)

def list (fields : Fields) (key : String) : Except Error (List Tree) :=
  match fields.lookup key with
  | none | some .null => pure []
  | some (.array items) => return (← items.mapM (item read)).filterMap id
  | some other => throw (.notList key other)

def params : Option Json → Except Error (Params Tree)
  | some (.object fields) =>
    return ⟨← list read fields "positional", ← list read fields "defaults", ← optional read fields "rest",
      ← optional read fields "rest_kw", ← list read fields "after_rest", ← optional read fields "blockarg"⟩
  | _ => pure {}

def argument : Json → Except Error (Option Tree × Option Tree)
  | .object fields =>
    match namedArgument? fields with
    | some (arg, value) => return (none, some (.node (.keyword arg (← read value)) (place fields)))
    | none => return (← read (.object fields), none)
  | other => throw (.notMap other)

def arguments (args : Fields) : Except Error (List (Option Tree × Option Tree)) :=
  match args.lookup "positional" with
  | some (.array items) => items.mapM (argument read)
  | _ => pure []

def call (fields : Fields) : Except Error (Kind Tree) := do
  let func ← required read fields "func" "call"
  match fields.lookup "args" with
  | some (.object inner) =>
    let parts ← arguments read inner
    return .call func (parts.filterMap Prod.fst) (parts.filterMap Prod.snd) (← optional read inner "star")
      (← optional read inner "blockarg")
  | _ => return .call func [] [] none none

def isEntry : Json → Bool
  | .object fields => (fields.lookup "key").any isPart && (fields.lookup "value").any isPart
  | _ => false

def entry (v : Json) : Except Error (Tree × Tree) :=
  return (← required read (v.asObject?.getD []) "key" "hash",
    ← required read (v.asObject?.getD []) "value" "hash")

def entries (fields : Fields) : Except Error (List (Tree × Tree)) :=
  match fields.lookup "entries" with
  | some (.array items) => (items.filter isEntry).mapM (entry read)
  | _ => pure []

def operator (name : String) : Except Error Operator :=
  match operator? name with
  | some op => pure op
  | none => throw (.illegalOperator name)

def binary (fields : Fields) (span : Span) : Except Error Tree := do
  let left ← required read fields "left" "binary"
  let right ← required read fields "right" "binary"
  let op ← operator (match fields.lookup "op" with
    | some (.string s) => s
    | other => symbol other)
  return op.tree left right span

/-- A slice stands where both its ends stand; one without an end stands where the whole subscript
does. -/
def slice (lower upper : Option Tree) (whole : Span) : Tree :=
  .node (.slice lower upper) (match lower, upper with
    | some l, some u => l.span.cover u.span
    | _, _ => whole)

def subscript (fields : Fields) (span : Span) : Except Error (Option Tree) := do
  let of (part : Option Tree) : Except Error (Option Tree) :=
    return some (.node (.subscript (← required read fields "value" "subscript") part) span)
  match fields.lookup "slice" with
  | some (.array items) =>
    match items.filter isPart with
    | [one] => of ((← read one).map fun t => .node (.index t) t.span)
    | [low, high] => of (some (slice (← read low) (← read high) span))
    | _ => optional read fields "value"
  | some v => of (← read v)
  | none => of none

/-! ## Nodes -/

def build (type : String) (fields : Fields) (form : Form) : Except Error (Option Tree) := do
  let node (kind : Kind Tree) : Except Error (Option Tree) := pure (some (.node kind (place fields)))
  let part (key : String) : Except Error (Option Tree) := optional read fields key
  let need (key : String) : Except Error Tree := required read fields key type
  match form with
  | .program => part "body"
  | .module =>
    if holdsMethods fields then part "body"
    else node (.moduleDef (← need "name") (← part "body") (doc fields))
  | .block => node (.block (← list read fields "stmts"))
  | .function isLambda =>
    node (.function (← part "name") (← params read (fields.lookup "params"))
      (← part "body") isLambda (doc fields))
  | .call => node (← call read fields)
  | .member => node (.member (← need "value") (← need "attr"))
  | .binary => some <$> binary read fields (place fields)
  | .unary =>
    match ← operator (symbol (fields.lookup "op")) with
    | .primitive op => node (.unary op (← need "operand"))
    | other => throw (.unsupportedUnary other)
  | .void => node .void
  | .control kind => node (.control kind)
  | .classDef =>
    node (.classDef (← need "name") (← part "super") (← part "body")
      (((fields.lookup "static").bind Json.asBool?).getD false) (doc fields))
  | .undef => node (.undef (← list read fields "names"))
  | .hash =>
    let pairs ← entries read fields
    node (.dict (pairs.map Prod.fst) (pairs.map Prod.snd))
  | .rescue =>
    node (.handler (← list read fields "exceptions") (← part "binder") (← part "handler")
    (← part "else"))
  | .each => node (.each (← need "target") (← need "iter") (← part "body"))
  | .branch => node (.branch (← need "test") (← part "body") (← part "else"))
  | .loop => node (.loop (← need "test") (← part "body"))
  | .keyword => node (.keyword (word fields "arg") (← part "value"))
  | .array => node (.array (← list read fields "elts"))
  | .args =>
    match fields.lookup "positional" with
    | some (.array _) => node (.array (← list read fields "positional"))
    | _ => node (.array (← list read fields "star"))
  | .range => node (.array ((← part "from").toList ++ (← part "to").toList))
  | .star => node (.starred (← need "value"))
  | .arg => node (.name (word fields "arg") .plain)
  | .ret => node (.ret (← part "value"))
  | .yield => node (.yield (← part "value"))
  | .string => node (.str (word fields "id"))
  | .embedded => node (.strEmbed (← part "value"))
  | .regexp => node (.regexp (← part "pattern") (← part "regexp_end"))
  | .subscript => subscript read fields (place fields)
  | .guarded => node (.guarded (← part "body") (← part "rescue") (← part "else") (← part "ensure"))
  | .assign => node (.assign (← need "target") (← need "value"))
  | .name kind => node (.name (word fields "id") kind)
  | .symbol => node (.symbol (word fields "id"))
  | .int => node (.int (word fields "value"))
  | .float => node (.float (word fields "value"))

def ofValue : Read
  | .object (field :: rest) =>
    match type? (field :: rest) with
    | none => throw (.missingType (.object (field :: rest)))
    | some type =>
      match form? type with
      | none => throw (.unexpectedNode type)
      | some form => build read type (field :: rest) form
  | _ => pure none

def within : (levels : Nat) → Read
  | 0 => fun _ => pure none
  | levels + 1 => ofValue (within levels)

def ofDump (v : Json) : Except Error (Option Tree) := within v.height v

/-! ## The recursion without levels -/

theorem lookup_of_namedArgument {fields : Fields} {arg : String} {value : Json}
    (found : namedArgument? fields = some (arg, value)) : fields.lookup "value" = some value := by
  unfold namedArgument? at found
  split at found
  · split at found
    · obtain ⟨_, -, same⟩ := Option.map_eq_some_iff.mp found
      cases same
      assumption
    · cases found
  · cases found

section Congruence

variable {read read' : Read} {fields : Fields}

def Agree (read read' : Read) (fields : Fields) : Prop :=
  ∀ v, v.height ≤ Json.heightFields fields → read v = read' v

theorem Agree.inner (agree : Agree read read' fields) {key : String} {inner : Fields}
    (found : fields.lookup key = some (.object inner)) : Agree read read' inner := by
  intro v low
  have := Json.height_le_of_lookup found
  simp only [Json.height] at this
  exact agree v (by omega)

theorem mapM_congr {α β : Type} {f g : α → Except Error β} {xs : List α}
    (same : ∀ x ∈ xs, f x = g x) : xs.mapM f = xs.mapM g := by
  induction xs with
  | nil => rfl
  | cons x xs ih =>
    rw [List.mapM_cons, List.mapM_cons, same x (by simp), ih fun y mem => same y (by simp [mem])]

section

variable (agree : Agree read read' fields)
include agree

theorem optional_congr (key : String) : optional read fields key = optional read' fields key := by
  unfold optional
  cases found : fields.lookup key with
  | none => rfl
  | some v => exact agree v (Json.height_le_of_lookup found)

theorem required_congr (key type : String) :
    required read fields key type = required read' fields key type := by
  simp only [required, optional_congr agree]

theorem list_congr (key : String) : list read fields key = list read' fields key := by
  unfold list
  split
  · rfl
  · rfl
  case _ items found =>
    have same : ∀ v ∈ items, item read v = item read' v := by
      intro v mem
      have := Json.height_lt_of_item found mem
      unfold item
      split
      · exact agree _ (by omega)
      · rfl
    rw [mapM_congr same]
  · rfl

theorem params_congr (key : String) : params read (fields.lookup key) = params read' (fields.lookup key) := by
  cases found : fields.lookup key with
  | none => rfl
  | some v =>
    cases v with
    | object inner =>
      have agree := agree.inner found
      simp only [params, list_congr agree, optional_congr agree]
    | _ => rfl

theorem arguments_congr : arguments read fields = arguments read' fields := by
  unfold arguments
  split
  case _ items found =>
    refine mapM_congr fun v mem => ?_
    have low := Json.height_lt_of_item found mem
    cases v with
    | object inner =>
      simp only [argument, agree (.object inner) (by omega)]
      split
      case _ arg value held =>
        have := Json.height_le_of_lookup (lookup_of_namedArgument held)
        simp only [Json.height] at low
        rw [agree value (by omega)]
      · rfl
    | _ => rfl
  · rfl

theorem call_congr : call read fields = call read' fields := by
  simp only [call, required_congr agree]
  congr 1
  funext func
  split
  case _ inner found =>
    have agree := agree.inner found
    simp only [arguments_congr agree, optional_congr agree]
  · rfl

theorem entries_congr : entries read fields = entries read' fields := by
  unfold entries
  split
  case _ items found =>
    refine mapM_congr fun v mem => ?_
    have low := Json.height_lt_of_item found (List.mem_filter.1 mem |>.1)
    have agree : Agree read read' (v.asObject?.getD []) := by
      intro w below
      refine agree w ?_
      cases v with
      | object inner =>
        simp only [Json.height] at low
        simp only [Json.asObject?, Option.getD_some] at below
        omega
      | _ =>
        simp only [Json.asObject?, Option.getD_none, Json.heightFields] at below
        omega
    simp only [entry, required_congr agree]
  · rfl

theorem subscript_congr (span : Span) : subscript read fields span = subscript read' fields span := by
  simp only [subscript, required_congr agree, optional_congr agree]
  split
  case _ items found =>
    have low {v : Json} (mem : v ∈ items.filter isPart) : read v = read' v :=
      agree v (Nat.le_of_lt (Json.height_lt_of_item found (List.mem_filter.1 mem |>.1)))
    split
    case _ one only => rw [low (by simp [only])]
    case _ lower upper both => rw [low (by simp [both]), low (by simp [both])]
    · rfl
  case _ v _ found => rw [agree v (Json.height_le_of_lookup found)]
  · rfl

theorem build_congr (type : String) (form : Form) :
    build read type fields form = build read' type fields form := by
  cases form <;> simp only [build, binary, optional_congr agree, required_congr agree,
    list_congr agree, params_congr agree,
    call_congr agree, entries_congr agree, subscript_congr agree]

end

theorem ofValue_congr {v : Json} (agree : ∀ w : Json, w.height < v.height → read w = read' w) :
    ofValue read v = ofValue read' v := by
  cases v with
  | object fields =>
    cases fields with
    | nil => rfl
    | cons field rest =>
      have agree : Agree read read' (field :: rest) := by
        intro w low
        exact agree w (by simp only [Json.height]; omega)
      simp only [ofValue, build_congr agree]
  | _ => rfl

end Congruence

theorem within_of_height_eq_zero {v : Json} (low : v.height = 0) (levels : Nat) :
    within levels v = pure none := by
  cases levels with
  | zero => rfl
  | succ levels =>
    cases v with
    | object fields => simp [Json.height] at low
    | _ => rfl

theorem within_eq_within {n m : Nat} {v : Json} (hn : v.height ≤ n) (hm : v.height ≤ m) :
    within n v = within m v := by
  induction n generalizing m v with
  | zero => rw [within_of_height_eq_zero (by omega), within_of_height_eq_zero (by omega)]
  | succ n ih =>
    cases m with
    | zero => rw [within_of_height_eq_zero (by omega), within_of_height_eq_zero (by omega)]
    | succ m => exact ofValue_congr fun w low => ih (by omega) (by omega)

theorem ofDump_eq (v : Json) : ofDump v = ofValue ofDump v := by
  have step : ofDump v = within (v.height + 1) v := within_eq_within (Nat.le_refl _) (Nat.le_succ _)
  rw [step]
  exact ofValue_congr fun w low => within_eq_within (Nat.le_of_lt low) (Nat.le_refl _)

/-! ## The fields that are read into an arena -/

theorem type?_eq : type? = Dump.typeOf? := by
  funext fields
  unfold type? Dump.typeOf?
  cases fields.lookup "type" with
  | none => rfl
  | some v => cases v <;> rfl

theorem word_eq : word = Dump.text := by
  funext fields key
  unfold word Dump.text Dump.text?
  cases fields.lookup key with
  | none => rfl
  | some v => cases v <;> rfl

theorem doc_eq : doc = Dump.doc? := rfl

theorem place_eq : place = Dump.spanOf := by
  funext fields
  have offset (key : String) (otherwise : UInt64) : (match fields.lookup key with
    | some (.number n) => n.toOffset
    | _ => otherwise) = (Dump.number? fields key).getD otherwise := by
    unfold Dump.number?
    cases fields.lookup key with
    | none => rfl
    | some v => cases v <;> rfl
  have column : ((Dump.number? fields "start_col").getD 0).toUInt32 + 1 =
      ((Dump.number? fields "start_col").map (fun c => c.toUInt32 + 1)).getD 1 := by
    cases Dump.number? fields "start_col" <;> rfl
  simp only [place, offset, column]
  rfl

theorem isPart_eq : isPart = Dump.isNode := by
  funext v
  cases v with
  | object fields => cases fields <;> rfl
  | _ => rfl

theorem guard_bind {α : Type} (p : Prop) [Decidable p] (f : Unit → Option α) :
    (guard p >>= f) = if p then f () else none := by
  show ((if p then pure () else failure : Option Unit) >>= f) = _
  split <;> rfl

theorem namedArgument?_eq : namedArgument? = Dump.keywordForm? := by
  funext fields
  unfold namedArgument? Dump.keywordForm?
  simp only [type?_eq, show word? = Dump.text? from rfl, ↓guard_bind, Option.bind_eq_bind]
  by_cases assigns : Dump.typeOf? fields = some "assign"
  · rcases fields.lookup "target" with _ | (_ | _ | _ | _ | _ | target)
    case some.object =>
      cases fields.lookup "value" with
      | none => simp [assigns, Json.asObject?]
      | some value =>
        by_cases named : Dump.typeOf? target = some "name"
        · cases word : Dump.text? target "id" <;> simp [assigns, named, word, Json.asObject?]
        · simp [assigns, named, Json.asObject?]
    all_goals simp [Json.asObject?]
  · rw [if_neg assigns]
    split
    · exact if_neg fun both => assigns both.1
    · rfl

theorem symbol_eq : symbol = Dump.operatorName := by
  funext v
  unfold symbol
  rw [word_eq]
  rfl

theorem holdsMethods_eq : holdsMethods = Dump.wrapsInstanceMethods := by
  funext fields
  unfold holdsMethods Dump.wrapsInstanceMethods
  rcases fields.lookup "name" with _ | (_ | _ | _ | _ | _ | inner)
  case some.object =>
    simp only [type?_eq]
    congr 1
    rcases inner.lookup "id" with _ | (_ | _ | _ | id | _ | _)
    case some.string =>
      show decide _ = List.isPrefixOf _ _
      rw [Bool.eq_iff_iff, decide_eq_true_iff, List.isPrefixOf_iff_prefix, List.prefix_iff_eq_take]
      exact eq_comm
    all_goals rfl
  all_goals rfl

theorem operator?_eq : operator? = Operator.ofName? := by
  funext name
  unfold operator?
  split
  case h_35 => exact (List.lookup_eq_none_iff.mpr (by simp_all [Operator.table])).symm
  all_goals rfl

theorem form?_eq : form? = Form.ofName? := by
  funext type
  unfold form?
  split
  case h_44 => exact (List.lookup_eq_none_iff.mpr (by simp_all [Form.table])).symm
  all_goals rfl

end Tree

end RubyInfer
