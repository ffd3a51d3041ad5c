/-!
The content digest: the 64-bit xxHash with seed 0. Four lanes absorb the bytes in stripes of 32;
what is left over is mixed in by eights, by four and singly.
-/

namespace RubyInfer.Digest

def prime1 : UInt64 := 0x9E3779B185EBCA87
def prime2 : UInt64 := 0xC2B2AE3D27D4EB4F
def prime3 : UInt64 := 0x165667B19E3779F9
def prime4 : UInt64 := 0x85EBCA77C2B2AE63
def prime5 : UInt64 := 0x27D4EB2F165667C5

def rotate (x : UInt64) (k : UInt64) : UInt64 := (x <<< k) ||| (x >>> (64 - k))

def word (bytes : ByteArray) (start : Nat) : (count : Nat) → UInt64
  | 0 => 0
  | count + 1 => (word bytes (start + 1) count <<< 8) ||| (bytes[start]?.getD 0).toUInt64

def round (acc lane : UInt64) : UInt64 := rotate (acc + lane * prime2) 31 * prime1

structure Lanes where
  a : UInt64
  b : UInt64
  c : UInt64
  d : UInt64

def Lanes.start : Lanes := ⟨prime1 + prime2, prime2, 0, 0 - prime1⟩

def Lanes.absorb (l : Lanes) (bytes : ByteArray) (i : Nat) : Lanes :=
  ⟨round l.a (word bytes i 8), round l.b (word bytes (i + 8) 8), round l.c (word bytes (i + 16) 8),
    round l.d (word bytes (i + 24) 8)⟩

def Lanes.absorbAll (bytes : ByteArray) : (stripes : Nat) → (i : Nat) → Lanes → Lanes
  | 0, _, l => l
  | stripes + 1, i, l => absorbAll bytes stripes (i + 32) (l.absorb bytes i)

def fold (h lane : UInt64) : UInt64 := (h ^^^ round 0 lane) * prime1 + prime4

def Lanes.merge (l : Lanes) : UInt64 :=
  let h := rotate l.a 1 + rotate l.b 7 + rotate l.c 12 + rotate l.d 18
  [l.a, l.b, l.c, l.d].foldl fold h

def mixEights (bytes : ByteArray) : (count : Nat) → (i : Nat) → UInt64 → UInt64
  | 0, _, h => h
  | count + 1, i, h =>
    mixEights bytes count (i + 8) (rotate (h ^^^ round 0 (word bytes i 8)) 27 * prime1 + prime4)

def mixFour (bytes : ByteArray) (i : Nat) (h : UInt64) : UInt64 :=
  rotate (h ^^^ (word bytes i 4 * prime1)) 23 * prime2 + prime3

def mixSingles (bytes : ByteArray) : (count : Nat) → (i : Nat) → UInt64 → UInt64
  | 0, _, h => h
  | count + 1, i, h =>
    mixSingles bytes count (i + 1) (rotate (h ^^^ (word bytes i 1 * prime5)) 11 * prime1)

def avalanche (h : UInt64) : UInt64 :=
  let h := (h ^^^ (h >>> 33)) * prime2
  let h := (h ^^^ (h >>> 29)) * prime3
  h ^^^ (h >>> 32)

def content (bytes : ByteArray) : UInt64 :=
  let size := bytes.size
  let stripes := size / 32
  let h := if stripes = 0 then prime5 else (Lanes.start.absorbAll bytes stripes 0).merge
  let h := h + UInt64.ofNat size
  let i := stripes * 32
  let eights := (size - i) / 8
  let h := mixEights bytes eights i h
  let i := i + eights * 8
  let fours := (size - i) / 4
  let h := if fours = 0 then h else mixFour bytes i h
  let i := i + fours * 4
  avalanche (mixSingles bytes (size - i) i h)

def hex (h : UInt64) : String :=
  let digits := Nat.toDigits 16 h.toNat
  String.ofList (List.replicate (16 - digits.length) '0' ++ digits)

end RubyInfer.Digest
