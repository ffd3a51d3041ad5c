import RubyInfer.Digest
import RubyInfer.FileTree
import RubyInfer.Syntax.Dump
import RubyInfer.Json.Document

/-!
Where trees come from: a file holds its own dump, or a program prints the dump of a file.
-/

namespace RubyInfer

/-- How a program has ended, with the files that it leaves. -/
structure Ended where
  output : ByteArray
  status : Nat
  millis : Nat
  files : FileTree

/-- What comes of starting a program with some words, unless it cannot be started or does not
end. -/
abbrev Programs := FileTree → (program : String) → (words : List String) → Option Ended

inductive Dumper
  | content
  /-- `program args… file`, stopped after `limit` milliseconds. -/
  | command (programs : Programs) (program : String) (args : List String) (limit : Nat)
deriving Inhabited

namespace Dumper

/-- The tree of a dump; `source` is the text that the dump describes. -/
def read? (file : Path) (source dump : ByteArray) : Option Ast := do
  let v ← Json.readBytes? dump
  (Ast.ofDump file (Digest.content source) v).toOption

/-- What a program prints about a file, if it ends well and in time, and the files after it. -/
def printed (programs : Programs) (files : FileTree) (file : Path) (program : String)
    (args : List String) (limit : Nat) :
    Option ByteArray × FileTree :=
  match programs files program (args ++ [file.text]) with
  | none => (none, files)
  | some run => (if run.status = 0 ∧ run.millis < limit then some run.output else none, run.files)

/-- The tree of a file, unless the file cannot be read or its dump is of no use, and the files after
it was dumped. -/
def parse (d : Dumper) (files : FileTree) (file : Path) : Option Ast × FileTree :=
  match files.read file with
  | .error _ => (none, files)
  | .ok source =>
    match d with
    | .content => (read? file source source, files)
    | .command programs program args limit =>
      let (dump, files) := printed programs files file program args limit
      (dump.bind (read? file source), files)

end Dumper

end RubyInfer
