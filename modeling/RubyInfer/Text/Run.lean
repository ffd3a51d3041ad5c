/-!
Runs of code points, as the tables of character classes give them.
-/

namespace RubyInfer

/-- How many code points are passed over before the run, how many it has, and the step between two
of them. -/
abbrev Run := Nat × Nat × Nat

namespace Run

/-- Which of the runs, each counted from the end of the one before, has a code point. -/
def index? : List Run → Nat → Option Nat
  | [], _ => none
  | (skipped, count, step) :: rest, n =>
    let extent := (count - 1) * step + 1
    if n < skipped then none
    else if n - skipped < extent then if (n - skipped) % step = 0 then some 0 else none
    else (index? rest (n - skipped - extent)).map (· + 1)

end Run

end RubyInfer
