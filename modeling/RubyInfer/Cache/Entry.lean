import RubyInfer.Digest
import RubyInfer.Syntax.Codec

/-!
Trees as files. An entry is a header of sixteen bytes (a mark, a version, two spare bytes and the
digest of the source, all little endian) and the tree as JSON.
-/

namespace RubyInfer.Cache.Entry

def mark : List UInt8 := [0x52, 0x53, 0x41, 0x43]

def currentVersion : Nat := 1

def headerSize : Nat := 16

inductive Error
  | tooSmall
  | foreign
  | version (found : Nat)
  | payload
  | digest
deriving DecidableEq

def Error.message : Error → String
  | .tooSmall => "cache entry too small"
  | .foreign => "invalid cache entry magic"
  | .version found =>
    "unsupported cache entry version " ++ Nat.repr found ++ " (reader supports " ++
      Nat.repr currentVersion ++ ")"
  | .payload => "deserialize ast"
  | .digest => "cache entry hash mismatch"

def littleEndian : (count : Nat) → UInt64 → List UInt8
  | 0, _ => []
  | count + 1, w => w.toUInt8 :: littleEndian count (w >>> 8)

def header (hash : UInt64) : List UInt8 :=
  mark ++ littleEndian 2 (UInt64.ofNat currentVersion) ++ littleEndian 2 0 ++ littleEndian 8 hash

def encode (a : Ast) : ByteArray := ⟨(header a.hash).toArray⟩ ++ a.toJson.render.toUTF8

def decode (bytes : ByteArray) : Except Error Ast := do
  if bytes.size < headerSize then throw .tooSmall
  if (bytes.extract 0 4).data.toList ≠ mark then throw .foreign
  let version := (Digest.word bytes 4 2).toNat
  if version ≠ currentVersion then throw (.version version)
  let some a := (Document.readBytes? (bytes.extract headerSize bytes.size)).bind
    Ast.ofDocument? | throw .payload
  if a.hash ≠ Digest.word bytes 8 8 then throw .digest
  return a

def fileName (source : Path) (hash : UInt64) : String := source.fileName?.getD "" ++ Digest.hex hash ++ ".ast"

end RubyInfer.Cache.Entry
