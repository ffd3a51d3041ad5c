import RubyInfer.Json.Basic
import RubyInfer.Path.Table
import RubyInfer.Syntax.Span

/-!
Diagnostics, file by file. A file holds at most one report of a given range and message.
-/

namespace RubyInfer

inductive Category
  | error | warning
deriving DecidableEq, Inhabited

def Category.name : Category → String
  | .error => "error"
  | .warning => "warning"

structure Diagnostic where
  file : Path
  category : Category
  span : Span
  message : String
deriving DecidableEq, Inhabited

namespace Diagnostic

def onFile (file : Path) (category : Category) (message : String) : Diagnostic :=
  ⟨file, category, ⟨0, 0, 1, 1⟩, message⟩

def sameReport (a b : Diagnostic) : Bool := a.span.start = b.span.start ∧
    a.span.stop = b.span.stop ∧ a.message = b.message

def text (d : Diagnostic) : String :=
  d.file.text ++ ":" ++ d.span.text ++ ": " ++ d.category.name ++ ": " ++ d.message

def toJson (d : Diagnostic) : Json :=
  .object [("file", .string d.file.text), ("category", .string d.category.name),
    ("start", .nat d.span.start.toNat),
    ("end", .nat d.span.stop.toNat), ("line", .nat d.span.line.toNat), ("col", .nat d.span.col.toNat),
    ("message", .string d.message)]

end Diagnostic

structure Diagnostics where
  byFile : PathMap (List Diagnostic) := {}
deriving Inhabited

namespace Diagnostics

def forFile (ds : Diagnostics) (file : Path) : List Diagnostic := (ds.byFile.get? file).getD []

def has (ds : Diagnostics) (d : Diagnostic) : Bool := (ds.forFile d.file).any d.sameReport

def push (ds : Diagnostics) (d : Diagnostic) : Diagnostics :=
  ⟨ds.byFile.update d.file [] (fun list => if list.any d.sameReport then list else list ++ [d])⟩

def retract (ds : Diagnostics) (d : Diagnostic) : Diagnostics :=
  if ds.byFile.contains d.file then
    ⟨ds.byFile.update d.file [] (fun list => list.filter (fun x => !d.sameReport x))⟩ else ds

def removeFile (ds : Diagnostics) (file : Path) : Diagnostics := ⟨ds.byFile.erase file⟩

def all (ds : Diagnostics) : List Diagnostic := ds.byFile.values.flatten

def total (ds : Diagnostics) : Nat := ds.all.length

def filesWithProblems (ds : Diagnostics) : Nat := (ds.byFile.values.filter (fun list => !list.isEmpty)).length

def isEmpty (ds : Diagnostics) : Bool := ds.total == 0

end Diagnostics

end RubyInfer
