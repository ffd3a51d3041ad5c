import RubyInfer.Cli.Run
import RubyInfer.Program.Running

/-!
The program. The places that a run may look at are read first, the run itself is a function on them,
and what it changed is written back.
-/

namespace RubyInfer.Main

def place (names : List String) : String := (Path.ofNames names).text

partial def readEntry (text : String) : IO (Option Entry) := do
  let path := (← IO.currentDir) / text
  if ← path.isDir then
    let mut children : List (String × Entry) := []
    for child in ← path.readDir do
      if let some e ← readEntry (text ++ "/" ++ child.fileName) then
        children := Entry.setChild child.fileName e children
    return some (.folder children)
  else if ← path.pathExists then return some (.file (← IO.FS.readBinFile path))
  else return none

def namesOf (files : FileTree) (path : Path) : List String :=
  let step (here : List String) (piece : String) : List String :=
    if piece = "" ∨ piece = "." then here else if piece = ".." then here.dropLast else here ++ [piece]
  path.pieces.foldl step (if path.isAbsolute then [] else files.working)

def addPlace (files : FileTree) (names : List String) : IO FileTree := do
  match ← readEntry (place names) with
  | some e => return files.putAt names e
  | none => return files

/-- Adds a project: a folder, or a file with the folder around it. -/
def addRoot (files : FileTree) (path : Path) : IO FileTree := do
  let names := namesOf files path
  let here := (← IO.currentDir) / place names
  addPlace files (if (← here.pathExists) && !(← here.isDir) then names.dropLast else names)

def addPlaces (files : FileTree) (places : Cli.Places) : IO FileTree := do
  let files ← places.single.foldlM (fun files path => addPlace files (namesOf files path)) files
  places.roots.foldlM addRoot files

def writeBack (old new : FileTree) : IO Unit := do
  let changes := old.changes new
  for names in changes.folders do IO.FS.createDirAll (place names)
  for (names, content) in changes.written do IO.FS.writeBinFile (place names) content
  for names in changes.deleted do
    let path := (← IO.currentDir) / place names
    if ← path.isDir then IO.FS.removeDir path else IO.FS.removeFile path

def snapshot (env : Cli.Environment) (words : List String) : IO FileTree := do
  let working := (Path.mk (← IO.currentDir).toString).pieces.filter Path.isName
  let files : FileTree := FileTree.putAt { working } working (.folder [])
  match Cli.read words with
  | .error _ => return files
  | .ok command =>
    let files ← addPlaces files (Cli.namedPlaces command)
    addPlaces files (Cli.optionPlaces env files command)

end RubyInfer.Main

open RubyInfer in
def main (words : List String) : IO UInt32 := do
  let started ← IO.monoMsNow
  let temporary := ((← IO.getEnv "TMPDIR").map RubyInfer.Path.mk).getD ⟨"/tmp"⟩
  let env : Cli.Environment := ⟨← IO.getEnv "RUBYLIB", temporary, Program.run?⟩
  let files ← Main.snapshot env words
  let outcome := Cli.run env files words
  let code := outcome.code
  let millis := (← IO.monoMsNow) - started
  for line in outcome.out millis do IO.println line
  for line in outcome.err millis do IO.eprintln line
  Main.writeBack files outcome.files
  return UInt32.ofNat code
