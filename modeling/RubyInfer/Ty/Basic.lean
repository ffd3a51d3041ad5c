/-!
Inferred types. Functions, classes and modules are named by their number. A union is kept as the
ascending list of its members, so types are ordered first, and equality is decided by that order.
-/

namespace RubyInfer

abbrev FunctionId := Nat

abbrev ClassId := Nat

abbrev ModuleId := Nat

inductive Ty
  | unknown
  | nil
  | bool
  | num
  /-- A string, with its text where it is a literal. -/
  | str (literal : Option String)
  | symbol (literal : Option String)
  /-- A list; the literals are those of its elements, when all of these are string literals. -/
  | list (elem : Ty) (literals : List String)
  | dict (key value : Ty)
  | function (id : FunctionId)
  | classObj (id : ClassId)
  | moduleObj (id : ModuleId)
  | inst (id : ClassId)
  | union (members : List Ty)
deriving Inhabited

namespace Ty

/-! ## Order -/

def rank : Ty → Nat
  | .unknown => 0
  | .nil => 1
  | .bool => 2
  | .num => 3
  | .str _ => 4
  | .symbol _ => 5
  | .list _ _ => 6
  | .dict _ _ => 7
  | .function _ => 8
  | .classObj _ => 9
  | .moduleObj _ => 10
  | .inst _ => 11
  | .union _ => 12

def cmpLiteral : Option String → Option String → Ordering
  | none, none => .eq
  | none, some _ => .lt
  | some _, none => .gt
  | some a, some b => compare a b

def cmpTexts : List String → List String → Ordering
  | [], [] => .eq
  | [], _ :: _ => .lt
  | _ :: _, [] => .gt
  | a :: as, b :: bs => (compare a b).then (cmpTexts as bs)

mutual
/-- Types are ordered by their form first and by their parts from left to right next. -/
def cmp : Ty → Ty → Ordering
  | .str a, .str b => cmpLiteral a b
  | .symbol a, .symbol b => cmpLiteral a b
  | .list a as, .list b bs => (cmp a b).then (cmpTexts as bs)
  | .dict a b, .dict c d => (cmp a c).then (cmp b d)
  | .function a, .function b => compare a b
  | .classObj a, .classObj b => compare a b
  | .moduleObj a, .moduleObj b => compare a b
  | .inst a, .inst b => compare a b
  | .union as, .union bs => cmpAll as bs
  | a, b => compare a.rank b.rank

def cmpAll : List Ty → List Ty → Ordering
  | [], [] => .eq
  | [], _ :: _ => .lt
  | _ :: _, [] => .gt
  | a :: as, b :: bs => (cmp a b).then (cmpAll as bs)
end

theorem cmpLiteral_eq_iff {a b : Option String} : cmpLiteral a b = .eq ↔ a = b := by
  cases a <;> cases b <;> simp [cmpLiteral]

theorem cmpTexts_eq_iff {as bs : List String} : cmpTexts as bs = .eq ↔ as = bs := by
  induction as generalizing bs with
  | nil => cases bs <;> simp [cmpTexts]
  | cons a as ih => cases bs <;> simp [cmpTexts, Ordering.then_eq_eq, ih]

mutual
theorem cmp_eq_iff : ∀ (a b : Ty), cmp a b = .eq ↔ a = b
  | .unknown, b => by cases b <;> simp [cmp, rank]
  | .nil, b => by cases b <;> simp [cmp, rank]
  | .bool, b => by cases b <;> simp [cmp, rank]
  | .num, b => by cases b <;> simp [cmp, rank]
  | .str _, b => by cases b <;> simp [cmp, rank, cmpLiteral_eq_iff]
  | .symbol _, b => by cases b <;> simp [cmp, rank, cmpLiteral_eq_iff]
  | .list e _, b => by cases b <;> simp [cmp, rank, Ordering.then_eq_eq, cmp_eq_iff e, cmpTexts_eq_iff]
  | .dict k v, b => by cases b <;> simp [cmp, rank, Ordering.then_eq_eq, cmp_eq_iff k, cmp_eq_iff v]
  | .function _, b => by cases b <;> simp [cmp, rank]
  | .classObj _, b => by cases b <;> simp [cmp, rank]
  | .moduleObj _, b => by cases b <;> simp [cmp, rank]
  | .inst _, b => by cases b <;> simp [cmp, rank]
  | .union ms, b => by cases b <;> simp [cmp, rank, cmpAll_eq_iff ms]

theorem cmpAll_eq_iff : ∀ (as bs : List Ty), cmpAll as bs = .eq ↔ as = bs
  | [], bs => by cases bs <;> simp [cmpAll]
  | a :: as, bs => by cases bs <;> simp [cmpAll, Ordering.then_eq_eq, cmp_eq_iff a, cmpAll_eq_iff as]
end

instance : DecidableEq Ty := fun a b => decidable_of_iff (cmp a b = .eq) (cmp_eq_iff a b)

/-! ## Members and unions -/

def members : Ty → List Ty
  | .union ms => ms
  | t => [t]

def insertMember (t : Ty) : List Ty → List Ty
  | [] => [t]
  | m :: ms =>
    match cmp t m with
    | .lt => t :: m :: ms
    | .eq => m :: ms
    | .gt => m :: insertMember t ms

def sorted (ts : List Ty) : List Ty := ts.foldl (fun ms t => insertMember t ms) []

/-- The union of all types: the members of unions count as given one by one, one member stands for
itself, and none is unknown. -/
def makeUnion (ts : List Ty) : Ty :=
  match sorted (ts.flatMap members) with
  | [] => .unknown
  | [t] => t
  | ms => .union ms

def either (a b : Ty) : Ty := if a = b then a else makeUnion [a, b]

def join (a b : Ty) : Ty :=
  if a = .unknown then b
  else if b = .unknown then a
  else either a b

def isUnknown (t : Ty) : Bool := t = .unknown

def isUnion : Ty → Bool
  | .union _ => true
  | _ => false

def firstUseful : Ty → Ty
  | .union ms => (ms.find? (fun t => !t.isUnknown)).getD .unknown
  | t => t

def contains (a b : Ty) : Bool := b.members.all (fun t => a.members.contains t)

def functions (t : Ty) : List FunctionId :=
  t.members.filterMap fun
    | .function f => some f
    | _ => none

def literal? : Ty → Option String
  | .str literal => literal
  | _ => none

/-- The strings that a value may be: a literal, one of several, or the elements of a list of
literals. -/
def stringLiterals (t : Ty) : List String :=
  t.members.flatMap fun
    | .str literal => literal.toList
    | .list _ literals => literals
    | _ => []

def listOf (elem : Ty) : Ty := .list elem []

def ofElements (elems : List Ty) : Ty := .list (makeUnion elems) ((elems.mapM literal?).getD [])

mutual
def shape : Ty → Ty
  | .str _ => .str none
  | .symbol _ => .symbol none
  | .list elem _ => .list elem.shape []
  | .dict key value => .dict key.shape value.shape
  | .union ms => makeUnion (shapeAll ms)
  | t => t

def shapeAll : List Ty → List Ty
  | [] => []
  | t :: ts => t.shape :: shapeAll ts
end

/-! ## Text -/

/-- How functions, classes and modules are called. -/
structure Names where
  function : FunctionId → String
  classObj : ClassId → String
  moduleObj : ModuleId → String

def Names.anonymous : Names where
  function id := "#" ++ Nat.repr id
  classObj id := "Class#" ++ Nat.repr id
  moduleObj id := "Module#" ++ Nat.repr id

def distinct (texts : List String) : List String :=
  texts.foldl (fun seen s => if seen.contains s then seen else seen ++ [s]) []

def displayUnion (parts : List String) : String :=
  match distinct parts with
  | [one] => one
  | parts => "\x7b" ++ " | ".intercalate parts ++ "\x7d"

mutual
def display (names : Names) : Ty → String
  | .unknown => "?"
  | .nil => "nil"
  | .bool => "Bool"
  | .num => "Num"
  | .str _ => "Str"
  | .symbol _ => "Symbol"
  | .list elem _ => "[" ++ elem.display names ++ "]"
  | .dict key value => "\x7b" ++ key.display names ++ " => " ++ value.display names ++ "\x7d"
  | .function id => "fn " ++ names.function id
  | .classObj id => "class " ++ names.classObj id
  | .moduleObj id => "module " ++ names.moduleObj id
  | .inst id => names.classObj id
  | .union ms => displayUnion (displayAll names ms)

def displayAll (names : Names) : List Ty → List String
  | [] => []
  | t :: ts => t.display names :: displayAll names ts
end

end Ty

end RubyInfer
