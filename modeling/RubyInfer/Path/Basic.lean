/-!
Paths. A path is shown as it was given, and two paths are the same place when their parts agree:
repeated slashes, a slash at the end and a dot inside make no difference.
-/

namespace RubyInfer

structure Path where
  text : String
deriving DecidableEq, Inhabited

namespace Path

def splitSlash : List Char → List (List Char)
  | [] => [[]]
  | c :: cs =>
    if c = '/' then [] :: splitSlash cs
    else
      match splitSlash cs with
      | [] => [[c]]
      | piece :: rest => (c :: piece) :: rest

def pieces (p : Path) : List String := (splitSlash p.text.toList).map String.ofList

def isAbsolute (p : Path) : Bool := p.text.toList.head? == some '/'

/-- What a path denotes: from the root or not, and by which names. -/
structure Parts where
  absolute : Bool
  names : List String
deriving DecidableEq

def isName (piece : String) : Bool := piece ≠ "" ∧ piece ≠ "."

def parts (p : Path) : Parts :=
  if p.isAbsolute then ⟨true, p.pieces.filter isName⟩
  else
    match p.pieces with
    | "." :: rest => ⟨false, "." :: rest.filter isName⟩
    | pieces => ⟨false, pieces.filter isName⟩

def same (p q : Path) : Bool := p.parts = q.parts

/-- The last name, unless the path ends in a step that is none. -/
def fileName? (p : Path) : Option String :=
  match p.parts.names.getLast? with
  | some ".." => none
  | some "." => none
  | found => found

def ofPieces (pieces : List String) : Path := ⟨"/".intercalate pieces⟩

/-- The pieces without those at the end that name nothing; a dot at the very start of a relative
path stays. -/
def trimPieces (pieces : List String) : List String :=
  match pieces with
  | [] => []
  | first :: rest => first :: (rest.reverse.dropWhile (fun piece => !isName piece)).reverse

def parent? (p : Path) : Option Path :=
  if p.parts.names.isEmpty then none
  else
    match trimPieces (trimPieces p.pieces).dropLast with
    | [] => some ⟨""⟩
    | [""] => some ⟨if p.isAbsolute then "/" else ""⟩
    | pieces => some (ofPieces pieces)

def withParentsWithin : (bound : Nat) → Path → List Path
  | 0, _ => []
  | bound + 1, p =>
    if p.text.isEmpty then []
    else
      match p.parent? with
      | some q => p :: withParentsWithin bound q
      | none => [p]

def withParents (p : Path) : List Path := withParentsWithin (p.parts.names.length + 1) p

/-- The last piece with those before it; slashes at the end do not count, and the root has no last
piece. -/
def lastPiece? (p : Path) : Option (List String × String) :=
  match p.pieces.reverse.dropWhile (· = "") with
  | [] => none
  | last :: before => some (before.reverse, last)

def endsInSlash (p : Path) : Bool := p.text.toList.getLast? == some '/'

/-- `q` seen from `p`; an absolute `q` stands for itself. -/
def join (p q : Path) : Path :=
  if q.isAbsolute then q
  else if p.text.isEmpty then q
  else if p.endsInSlash then ⟨p.text ++ q.text⟩
  else ⟨p.text ++ "/" ++ q.text⟩

def isWithin (p dir : Path) : Bool :=
  p.parts.absolute == dir.parts.absolute && dir.parts.names.isPrefixOf p.parts.names

def endsIn (p tail : Path) : Bool := tail.parts.names.isSuffixOf p.parts.names

def ofNames (names : List String) : Path := ⟨"/" ++ "/".intercalate names⟩

theorem same_iff {p q : Path} : p.same q = true ↔ p.parts = q.parts := by
  simp [same]

@[simp]
theorem same_refl (p : Path) : p.same p = true := same_iff.mpr rfl

theorem same_comm {p q : Path} : p.same q = q.same p := by
  simp [same, eq_comm]

theorem same_trans {p q r : Path} (hpq : p.same q = true) (hqr : q.same r = true) : p.same r = true :=
  same_iff.mpr ((same_iff.mp hpq).trans (same_iff.mp hqr))

end Path

end RubyInfer
