import RubyInfer.Cache.Entry
import RubyInfer.Dumper
import RubyInfer.Path.Table
import RubyInfer.Text.Quoted

/-!
The cache of trees. A tree is looked for in memory, then on disk under the digest of its source, and
is parsed last. A file that could not be parsed is remembered as such until it is forgotten.
-/

namespace RubyInfer

structure Cache where
  dumper : Dumper
  disk : Option Path := none
  memory : PathMap (Option Nat) := {}
  /-- Every tree that was ever made, by its number. -/
  trees : Array Ast := #[]
  memoryHits : Nat := 0
  diskHits : Nat := 0
  parses : Nat := 0
deriving Inhabited

namespace Cache

def withDisk (dumper : Dumper) (folder : Path) (files : FileTree) : Cache × FileTree :=
  match files.makeFolders folder with
  | (files, none) => ({ dumper, disk := some folder }, files)
  | (files, some _) => ({ dumper }, files)

def remember (c : Cache) (file : Path) (tree : Option Nat) : Cache :=
  { c with memory := c.memory.insert file tree }

def addTree (c : Cache) (file : Path) (tree : Ast) : Nat × Cache :=
  (c.trees.size, { c with trees := c.trees.push tree }.remember file (some c.trees.size))

/-- The entry of a source with this digest. One that cannot be used is deleted. -/
def loadEntry (folder file : Path) (hash : UInt64) (files : FileTree) : Option Ast × FileTree :=
  let entry := folder.join ⟨Entry.fileName file hash⟩
  match files.read entry with
  | .error _ => (none, files)
  | .ok bytes =>
    match Entry.decode bytes with
    | .ok tree => (some { tree with file }, files)
    | .error _ => (none, (files.deleteFile entry).toOption.getD files)

def storeEntry (folder : Path) (tree : Ast) (files : FileTree) : FileTree :=
  match files.makeFolders folder with
  | (files, some _) => files
  | (files, none) =>
    (files.write (folder.join ⟨Entry.fileName tree.file tree.hash⟩)
    (Entry.encode tree)).toOption.getD files

def loadFromDisk (c : Cache) (file : Path) (hash : UInt64) (files : FileTree) : Option Ast × FileTree :=
  match c.disk with
  | some folder => loadEntry folder file hash files
  | none => (none, files)

def storeToDisk (c : Cache) (tree : Ast) (files : FileTree) : FileTree :=
  match c.disk with
  | some folder => storeEntry folder tree files
  | none => files

def parse (c : Cache) (file : Path) (files : FileTree) : Option Nat × Cache × FileTree :=
  let c := { c with parses := c.parses + 1 }
  match c.dumper.parse files file with
  | (none, files) => (none, c.remember file none, files)
  | (some tree, files) =>
    let (id, kept) := c.addTree file tree
    (some id, kept, c.storeToDisk tree files)

def get (c : Cache) (file : Path) (files : FileTree) : Option Nat × Cache × FileTree :=
  match c.memory.get? file with
  | some tree => (tree, { c with memoryHits := c.memoryHits + 1 }, files)
  | none =>
    match files.read file with
    | .error _ => (none, c.remember file none, files)
    | .ok source =>
      match c.loadFromDisk file (Digest.content source) files with
      | (some tree, files) =>
        let (id, c) := { c with diskHits := c.diskHits + 1 }.addTree file tree
        (some id, c, files)
      | (none, files) => c.parse file files

def put (c : Cache) (file : Path) (tree : Nat) : Cache := c.remember file (some tree)

def remove (c : Cache) (file : Path) : Cache := { c with memory := c.memory.erase file }

def contains (c : Cache) (file : Path) : Bool := c.memory.contains file

def clear (c : Cache) : Cache := { c with memory := {} }

def clearDisk (c : Cache) (files : FileTree) : FileTree × Option FileError :=
  match c.disk with
  | some folder => if (files.entry? folder).isSome then files.deleteFolder folder else (files, none)
  | none => (files, none)

def size (c : Cache) : Nat := c.memory.size

def prewarm (c : Cache) (paths : List Path) (files : FileTree) : Cache × FileTree :=
  (paths.filter (fun p => !c.contains p)).foldl (fun (c, files) p => (c.get p files).2) (c, files)

def describe (c : Cache) : String :=
  let disk :=
    match c.disk with
    | some folder => "Some(DiskCache \x7b dir: " ++ Quoted.quote folder.text ++ " \x7d)"
    | none => "None"
  "AstCache \x7b entries: " ++ Nat.repr c.size ++ ", disk: " ++ disk ++ " \x7d"

end Cache

end RubyInfer
