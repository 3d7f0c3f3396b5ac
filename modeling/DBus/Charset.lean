/-!
# Sets of characters

Character properties are listed as runs of code points, ascending and apart. A plain run
holds every code point from its first to its last; a stepped run holds every second one when
its step is two, which is how upper and lower case letters alternate in many scripts.
-/

namespace DBus.Charset

/-- Whether `n` lies in one of the runs `(first, last)`. -/
def inRuns (runs : List (Nat × Nat)) (n : Nat) : Bool :=
  runs.any fun r => r.1 ≤ n && n ≤ r.2

/-- Whether `n` is met by one of the runs `(first, last, step)`. -/
def onRuns (runs : List (Nat × Nat × Nat)) (n : Nat) : Bool :=
  runs.any fun r => r.1 ≤ n && n ≤ r.2.1 && (n - r.1) % r.2.2 == 0

end DBus.Charset
