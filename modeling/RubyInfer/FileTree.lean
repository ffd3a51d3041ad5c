import RubyInfer.Path.Basic

/-!
A file system as a value. Folders keep their entries in the order of their names, there are no
links, and a relative path starts at the working folder.
-/

namespace RubyInfer

inductive Entry
  | file (content : ByteArray)
  | folder (children : List (String × Entry))
deriving Inhabited

namespace Entry

def child? : Entry → String → Option Entry
  | .folder children, name => children.lookup name
  | .file _, _ => none

def isFolder : Entry → Bool
  | .folder _ => true
  | .file _ => false

def find? : Entry → List String → Option Entry
  | e, [] => some e
  | e, name :: names => (e.child? name).bind (·.find? names)

def setChild (name : String) (e : Entry) : List (String × Entry) → List (String × Entry)
  | [] => [(name, e)]
  | (n, old) :: rest =>
    if name = n then (name, e) :: rest
    else if name < n then (name, e) :: (n, old) :: rest
    else (n, old) :: setChild name e rest

/-- Puts `new` at `names`; folders on the way are made, and a file on the way gives way to a
folder. -/
def put (new : Entry) : Entry → List String → Entry
  | _, [] => new
  | .folder children, name :: names =>
    .folder (setChild name (put new ((children.lookup name).getD (.folder [])) names) children)
  | .file _, name :: names => .folder [(name, put new (.folder []) names)]

def remove : Entry → List String → Entry
  | e, [] => e
  | .file content, _ => .file content
  | .folder children, [name] => .folder (children.filter (fun c => c.1 ≠ name))
  | .folder children, name :: names =>
    match children.lookup name with
    | some e => .folder (setChild name (e.remove names) children)
    | none => .folder children

mutual
/-- The files below an entry, each by its names from there; an entry comes before those with a
greater name. -/
def files : Entry → List (List String)
  | .file _ => [[]]
  | .folder children => filesIn children

def filesIn : List (String × Entry) → List (List String)
  | [] => []
  | (name, e) :: rest => e.files.map (name :: ·) ++ filesIn rest
end

mutual
/-- The folders below an entry, each by its names from there, the outer ones first. -/
def folders : Entry → List (List String)
  | .file _ => []
  | .folder children => foldersIn children

def foldersIn : List (String × Entry) → List (List String)
  | [] => []
  | (name, e) :: rest => (if e.isFolder then [[name]] else []) ++ e.folders.map (name :: ·) ++ foldersIn rest
end

end Entry

inductive FileError
  | notFound
  | busy
  | present
  | notFolder
  | isFolder
  | badEnd
  | nameTooLong
  | notEmpty
  | zeroInName
  | notText
deriving DecidableEq

namespace FileError

def reason : FileError → String
  | .notFound => "No such file or directory"
  | .busy => "Device or resource busy"
  | .present => "File exists"
  | .notFolder => "Not a directory"
  | .isFolder => "Is a directory"
  | .badEnd => "Invalid argument"
  | .nameTooLong => "File name too long"
  | .notEmpty => "Directory not empty"
  | .zeroInName => "file name contained an unexpected NUL byte"
  | .notText => "stream did not contain valid UTF-8"

def number? : FileError → Option Nat
  | .notFound => some 2
  | .busy => some 16
  | .present => some 17
  | .notFolder => some 20
  | .isFolder => some 21
  | .badEnd => some 22
  | .nameTooLong => some 36
  | .notEmpty => some 39
  | .zeroInName | .notText => none

def message (e : FileError) : String :=
  match e.number? with
  | some n => e.reason ++ " (os error " ++ Nat.repr n ++ ")"
  | none => e.reason

end FileError

structure FileTree where
  root : Entry := .folder []
  /-- The working folder, by its names from the root. -/
  working : List String := []
deriving Inhabited

namespace FileTree

def find? (t : FileTree) (names : List String) : Option Entry := t.root.find? names

def maxNameBytes : Nat := 255

/-- One step of a walk that stands at `here`. Every step, also an empty one, needs a folder to stand
in. -/
def step (t : FileTree) (here : List String) (piece : String) : Except FileError (List String) :=
  match t.find? here with
  | some (.folder children) =>
    if piece = "" ∨ piece = "." then .ok here
    else if piece = ".." then .ok here.dropLast
    else if maxNameBytes < piece.utf8ByteSize then .error .nameTooLong
    else if (children.lookup piece).isSome then .ok (here ++ [piece])
    else .error .notFound
  | some (.file _) => .error .notFolder
  | none => .error .notFound

def maxPathBytes : Nat := 4095

def start (t : FileTree) (p : Path) : List String := if p.isAbsolute then [] else t.working

def follow (t : FileTree) (p : Path) : Except FileError (List String) :=
  if p.text.toList.contains '\x00' then .error .zeroInName
  else if p.text.isEmpty then .error .notFound
  else p.pieces.foldlM t.step (t.start p)

def askable (p : Path) : Except FileError Unit :=
  if p.text.toList.contains '\x00' then .error .zeroInName
  else if maxPathBytes < p.text.utf8ByteSize then .error .nameTooLong
  else if p.text.isEmpty then .error .notFound
  else .ok ()

def resolve (t : FileTree) (p : Path) : Except FileError (List String) := do
  askable p
  p.pieces.foldlM t.step (t.start p)

def canonical (t : FileTree) (p : Path) : Except FileError Path := (t.follow p).map Path.ofNames

def settle (t : FileTree) (p : Path) : Path :=
  match t.canonical p with
  | .ok q => q
  | .error _ => p

def entry? (t : FileTree) (p : Path) : Option Entry :=
  match t.resolve p with
  | .ok names => t.find? names
  | .error _ => none

def isFile (t : FileTree) (p : Path) : Bool :=
  match t.entry? p with
  | some (.file _) => true
  | _ => false

def isFolder (t : FileTree) (p : Path) : Bool :=
  match t.entry? p with
  | some (.folder _) => true
  | _ => false

def read (t : FileTree) (p : Path) : Except FileError ByteArray := do
  match t.find? (← t.resolve p) with
  | some (.file content) => .ok content
  | some (.folder _) => .error .isFolder
  | none => .error .notFound

def readText (t : FileTree) (p : Path) : Except FileError String := do
  match String.fromUTF8? (← t.read p) with
  | some text => .ok text
  | none => .error .notText

def putAt (t : FileTree) (names : List String) (e : Entry) : FileTree :=
  { t with root := Entry.put e t.root names }

def removeAt (t : FileTree) (names : List String) : FileTree := { t with root := t.root.remove names }

/-- The folder in which the last piece of a path is looked up, and that piece; the root has none. -/
def lastStep (t : FileTree) (p : Path) : Except FileError (List String × Option String) := do
  askable p
  match p.lastPiece? with
  | none => .ok ([], none)
  | some (before, last) =>
    let folder ← before.foldlM t.step (t.start p)
    match t.find? folder with
    | some (.folder _) => .ok (folder, some last)
    | some (.file _) => .error .notFolder
    | none => .error .notFound

def isStep (piece : String) : Bool := piece = "." ∨ piece = ".."

def makeFolder (t : FileTree) (p : Path) : Except FileError FileTree := do
  match ← t.lastStep p with
  | (_, none) => .error .present
  | (folder, some name) =>
    if isStep name then .error .present
    else if maxNameBytes < name.utf8ByteSize then .error .nameTooLong
    else if (t.find? (folder ++ [name])).isSome then .error .present
    else .ok (t.putAt (folder ++ [name]) (.folder []))

def madeOr (t : FileTree) (p : Path) : Except FileError FileTree → FileTree × Option FileError
  | .ok t => (t, none)
  | .error e => if t.isFolder p then (t, none) else (t, some e)

/-- Makes the first of these folders, and before it the next ones as far as they are missed. Folders
that were made stay, also when a later one cannot be made. -/
def makeEach (t : FileTree) : List Path → FileTree × Option FileError
  | [] => (t, none)
  | p :: outer =>
    match t.makeFolder p with
    | .error .notFound =>
      match t.makeEach outer with
      | (t, none) => t.madeOr p (t.makeFolder p)
      | failed => failed
    | made => t.madeOr p made

def makeFolders (t : FileTree) (p : Path) : FileTree × Option FileError := t.makeEach p.withParents

def write (t : FileTree) (p : Path) (content : ByteArray) : Except FileError FileTree := do
  match ← t.lastStep p with
  | (_, none) => .error .isFolder
  | (folder, some name) =>
    if isStep name || p.endsInSlash then .error .isFolder
    else if maxNameBytes < name.utf8ByteSize then .error .nameTooLong
    else
      match t.find? (folder ++ [name]) with
      | some (.folder _) => .error .isFolder
      | _ => .ok (t.putAt (folder ++ [name]) (.file content))

def deleteFile (t : FileTree) (p : Path) : Except FileError FileTree := do
  let names ← t.resolve p
  match t.find? names with
  | some (.file _) => .ok (t.removeAt names)
  | _ => .error .isFolder

def deleteEmpty (t : FileTree) (p : Path) : Except FileError FileTree := do
  match ← t.lastStep p with
  | (_, none) => .error .busy
  | (_, some ".") => .error .badEnd
  | (_, some "..") => .error .notEmpty
  | (folder, some name) =>
    match t.find? (folder ++ [name]) with
    | some (.folder []) => .ok (t.removeAt (folder ++ [name]))
    | some (.folder _) => .error .notEmpty
    | some (.file _) => .error .notFolder
    | none => .error .notFound

/-- Deletes a folder with all that it holds. Its content goes first, and is gone also when the
folder itself has to stay. A path that led through the content leads nowhere then, and the folder
stays without an error. -/
def deleteFolder (t : FileTree) (p : Path) : FileTree × Option FileError :=
  match t.resolve p with
  | .error e => (t, some e)
  | .ok names =>
    if (t.find? names).any Entry.isFolder then
      let emptied := t.putAt names (.folder [])
      match emptied.deleteEmpty p with
      | .ok t => (t, none)
      | .error .notFound => (emptied, none)
      | .error e => (emptied, some e)
    else (t, some .notFolder)

def list? (t : FileTree) (p : Path) : Option (List String) :=
  match t.entry? p with
  | some (.folder children) => some (children.map Prod.fst)
  | _ => none

/-- What has to be written and deleted to make one tree of another: files with their new content,
and files and folders that are gone. -/
structure Changes where
  folders : List (List String)
  written : List (List String × ByteArray)
  deleted : List (List String)

def changes (old new : FileTree) : Changes where
  folders := (new.root.folders.filter (fun names => (old.find? names).isNone))
  written := new.root.files.filterMap fun names =>
    match new.find? names, old.find? names with
    | some (.file content), some (.file before) => if content.data = before.data then none else
        some (names, content)
    | some (.file content), _ => some (names, content)
    | _, _ => none
  deleted := (old.root.files ++ old.root.folders.reverse).filter (fun names => (new.find? names).isNone)

def walk (t : FileTree) (p : Path) : List Path :=
  match t.entry? p with
  | some (.folder children) => (Entry.filesIn children).map (fun names => p.join (Path.ofPieces names))
  | _ => []

end FileTree

end RubyInfer
