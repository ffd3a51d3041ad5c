/-!
Bytes as characters. In a text of octets every character stands for one byte, so that any bytes can
be taken apart and put together like a text, whether they spell one or not.
-/

namespace RubyInfer.Octets

def ofBytes (bytes : ByteArray) : String :=
  String.ofList (bytes.data.toList.map (fun b => Char.ofNat b.toNat))

def toBytes (octets : String) : ByteArray := ⟨(octets.toList.map (fun c => c.toNat.toUInt8)).toArray⟩

def ofText (text : String) : String := ofBytes text.toUTF8

def toText? (octets : String) : Option String := String.fromUTF8? (toBytes octets)

end RubyInfer.Octets
