/-!
TOML values and the rules by which tables grow. A table remembers how it came about, since that
decides who may add to it.
-/

namespace RubyInfer.Toml

inductive Origin
  | implicit
  | header
  | dotted
  | inline
deriving DecidableEq, Inhabited

inductive Value
  | string (s : String)
  | integer (n : Int)
  | float
  | boolean (b : Bool)
  | datetime
  | array (items : List Value)
  /-- Tables opened one after the other by headers in double brackets. -/
  | tables (elements : List Value)
  | table (origin : Origin) (fields : List (String × Value))
deriving Inhabited

abbrev Fields := List (String × Value)

def alter (key : String) (f : Option Value → Option Value) : Fields → Option Fields
  | [] => (f none).map (fun v => [(key, v)])
  | (k, v) :: rest =>
    if k = key then (f (some v)).map (fun v => (k, v) :: rest) else (alter key f rest).map ((k, v) :: ·)

def alterLast (f : Value → Option Value) : List Value → Option (List Value)
  | [] => none
  | [v] => (f v).map ([·])
  | v :: rest => (alterLast f rest).map (v :: ·)

/-- Acts on the table at a path. Tables that are missing on the way are made. A dotted path does not
enter a table that a header opened, unless it is the last one of a list, and no path enters a table
that is complete. -/
def within (dotted : Bool) :
    (path : List String) → (Origin → Fields → Option Fields) → Origin → Fields → Option Fields
  | [], act, origin, fields => act origin fields
  | key :: path, act, _, fields =>
    let made : Origin := if dotted then .dotted else .implicit
    let enter : Value → Option Value := fun
      | .table origin inner => (within dotted path act origin inner).map (.table origin)
      | _ => none
    let closed (origin : Origin) : Bool := origin = .inline ∨ (dotted ∧ origin = .header)
    let change : Option Value → Option Value := fun
      | none => enter (.table made [])
      | some (.tables elements) => (alterLast enter elements).map .tables
      | some (.table origin inner) => if closed origin then none else enter (.table origin inner)
      | some _ => none
    alter key change fields

def assign (path : List String) (key : String) (value : Value) : Origin → Fields → Option Fields :=
  within true path fun origin fields =>
    if path.isEmpty ∨ origin = .dotted then
      alter key (fun
        | none => some value
        | some _ => none) fields
    else none

def openTable (path : List String) (key : String) : Origin → Fields → Option Fields :=
  within false path fun _ fields =>
    alter key (fun
      | none => some (.table .header [])
      | some (.table .implicit inner) => some (.table .header inner)
      | _ => none) fields

def openElement (path : List String) (key : String) : Origin → Fields → Option Fields :=
  within false path fun _ fields =>
    alter key (fun
      | none => some (.tables [.table .header []])
      | some (.tables elements) => some (.tables (elements ++ [.table .header []]))
      | _ => none) fields

def splitLast : List String → Option (List String × String)
  | [] => none
  | [key] => some ([], key)
  | key :: rest => (splitLast rest).map (fun (path, last) => (key :: path, last))

inductive Statement
  | table (path : List String)
  | element (path : List String)
  | assign (path : List String) (value : Value)

structure State where
  current : List String := []
  fields : Fields := []

def State.step (s : State) (statement : Statement) : Option State := do
  match statement with
  | .table path =>
    let (outer, key) ← splitLast path
    return ⟨path, ← openTable outer key .header s.fields⟩
  | .element path =>
    let (outer, key) ← splitLast path
    return ⟨path, ← openElement outer key .header s.fields⟩
  | .assign path value =>
    let (outer, key) ← splitLast path
    return { s with fields := ← within false s.current (assign outer key value) .header s.fields }

def build (statements : List Statement) : Option Fields := (statements.foldlM State.step {}).map State.fields

def inlineTable (entries : List (List String × Value)) : Option Value := do
  let add (fields : Fields) (entry : List String × Value) : Option Fields := do
    let (outer, key) ← splitLast entry.1
    assign outer key entry.2 .inline fields
  return .table .inline (← entries.foldlM add [])

end RubyInfer.Toml
