import RubyInfer.Ty.Basic
import RubyInfer.Syntax.Kind

/-!
The types of operators, of elements and of subscripts.
-/

namespace RubyInfer.Ty

def isNum : Ty → Bool
  | .num => true
  | _ => false

def isStr : Ty → Bool
  | .str _ => true
  | _ => false

def isList : Ty → Bool
  | .list _ _ => true
  | _ => false

def anyMember (t : Ty) (p : Ty → Bool) : Bool := t.members.any p

def iterated (t : Ty) : Ty :=
  makeUnion (t.members.map fun
    | .list elem _ => elem
    | .dict key _ => key
    | _ => .unknown)

def destructured (t : Ty) : Ty :=
  makeUnion (t.members.map fun
    | .list elem _ => elem
    | _ => .unknown)

def subscripted (t : Ty) (sliced : Bool) : Ty :=
  makeUnion (t.members.map fun
    | .list elem _ => if sliced then .listOf elem else elem
    | .dict _ value => value
    | .str _ => .str none
    | _ => .unknown)

def binary (op : Op) (l r : Ty) : Ty :=
  if op.isComparison then .bool
  else if op.isLogical then l.either r
  else if op = .lShift ∧ l.anyMember isList then .listOf (l.iterated.either r)
  else if op = .add ∧ l.anyMember isList ∧ r.anyMember isList then .listOf (l.iterated.either r.iterated)
  else if (op = .add ∨ op = .mul ∨ op = .mod) ∧ l.anyMember isStr then .str none
  else if l.anyMember isNum ∧ r.anyMember isNum then .num
  else if l.isUnknown then r
  else l

def unary (op : Op) (t : Ty) : Ty := if op = .not ∨ op = .defined then .bool else t

def caught (classes : List Ty) : Ty :=
  makeUnion ((classes.flatMap members).map fun
    | .classObj c => .inst c
    | _ => .unknown)

def known (ts : List Ty) : Ty := makeUnion (ts.filter (fun t => !t.isUnknown))

end RubyInfer.Ty
