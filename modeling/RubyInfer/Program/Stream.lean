import RubyInfer.FileTree

/-!
What running programs share: the files, and the streams that they have opened. A stream on a file
knows its place there, and all that hold the stream move it together. Everything that is printed
carries its time, because programs run side by side.
-/

namespace RubyInfer.Program

inductive Stream
  | nothing
  | result
  | complaints
  | file (names : List String) (place : Nat) (reads writes appends : Bool)
  | pipe (content : ByteArray) (ready : Nat)
deriving Inhabited

structure Print where
  time : Nat
  process : Nat
  bytes : ByteArray
deriving Inhabited

structure Signal where
  time : Nat
  process : Nat
  number : Nat
deriving DecidableEq, Inhabited

structure World where
  files : FileTree
  streams : Array Stream := #[.nothing, .result, .complaints]
  prints : List Print := []
  signals : List Signal := []
  processes : Nat := 0

namespace World

def stream (w : World) (id : Nat) : Stream := w.streams[id]?.getD .nothing

def setStream (w : World) (id : Nat) (s : Stream) : World :=
  { w with streams := w.streams.setIfInBounds id s }

def addStream (w : World) (s : Stream) : Nat × World :=
  (w.streams.size, { w with streams := w.streams.push s })

def content (w : World) (names : List String) : Option ByteArray :=
  match w.files.find? names with
  | some (.file content) => some content
  | _ => none

def overwrite (old : ByteArray) (place : Nat) (new : ByteArray) : ByteArray :=
  let front := old.extract 0 place ++ ⟨Array.replicate (place - old.size) 0⟩
  front ++ new ++ old.extract (place + new.size) old.size

def write? (w : World) (time process : Nat) (bytes : ByteArray) (id : Nat) : Option World :=
  match w.stream id with
  | .nothing | .complaints => some w
  | .result => some (if bytes.isEmpty then w else { w with prints := ⟨time, process, bytes⟩ :: w.prints })
  | .file names place reads writes appends =>
    if !writes then none
    else
      let old := (w.content names).getD .empty
      let place := if appends then old.size else place
      let files := w.files.putAt names (.file (overwrite old place bytes))
      some ({ w with files }.setStream id (.file names (place + bytes.size) reads writes appends))
  | .pipe old ready => some (w.setStream id (.pipe (old ++ bytes) (max ready time)))

def rest? (w : World) (id : Nat) : Option ByteArray :=
  match w.stream id with
  | .nothing => some .empty
  | .result | .complaints => none
  | .file names place reads _ _ =>
    if reads then (w.content names).map (fun c => c.extract place c.size) else none
  | .pipe content _ => some content

def skip (w : World) (id count : Nat) : World :=
  match w.stream id with
  | .file names place reads writes appends =>
    w.setStream id (.file names (place + count) reads writes appends)
  | .pipe content ready => w.setStream id (.pipe (content.extract count content.size) ready)
  | _ => w

def readyAt (w : World) (id : Nat) : Nat :=
  match w.stream id with
  | .pipe _ ready => ready
  | _ => 0

def closeAt (w : World) (id time : Nat) : World :=
  match w.stream id with
  | .pipe content ready => w.setStream id (.pipe content (max ready time))
  | _ => w

def whole? (w : World) (id : Nat) : Option ByteArray :=
  match w.stream id with
  | .file names _ _ _ _ => w.content names
  | _ => w.rest? id

def printed (w : World) : ByteArray :=
  let sorted := w.prints.reverse.mergeSort (fun a b => a.time ≤ b.time)
  sorted.foldl (fun all p => all ++ p.bytes) .empty

def silence (w : World) (process time : Nat) : World :=
  { w with prints := w.prints.filter (fun p => !(p.process = process ∧ time < p.time)) }

end World

end RubyInfer.Program
