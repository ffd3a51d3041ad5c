/-!
Source locations: a byte range, its end exclusive, and the line and column where it starts, both
counted from 1.
-/

namespace RubyInfer

structure Span where
  start : UInt64
  stop : UInt64
  line : UInt32
  col : UInt32
deriving DecidableEq, Inhabited

namespace Span

def new (start stop : UInt64) (line col : UInt32) : Span := ⟨start, max stop start, line, col⟩

/-- The smallest span that covers both; line and column are those of the one that starts first. -/
def cover (a b : Span) : Span :=
  let first := if a.start ≤ b.start then a else b
  ⟨first.start, max a.stop b.stop, first.line, first.col⟩

def text (s : Span) : String := Nat.repr s.line.toNat ++ ":" ++ Nat.repr s.col.toNat

end Span

end RubyInfer
