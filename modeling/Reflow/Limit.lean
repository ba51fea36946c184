/-! # Limits

Bounds on what is worked out.  Where a bound is passed, there is no result, and the bound is the
reason. -/

namespace Reflow

/-- A bound that was passed. -/
inductive Limit where
  /-- A number has too many decimal digits to be read or written. -/
  | digits
  /-- A run of spaces is longer than a text can be. -/
  | length
  /-- A run of spaces, or the calls that wait for one another, do not fit in memory. -/
  | memory
  deriving Repr, DecidableEq

/-- The wording of a limit. -/
def Limit.message : Limit → String
  | .digits => "a number has too many digits"
  | .length => "a text is too long"
  | .memory => "out of memory"

end Reflow
