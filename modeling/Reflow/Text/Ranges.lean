/-! # Tables of code points

A character property is a sorted list of closed ranges of code points, a case mapping a sorted list
of runs that share an offset.  Both are searched from the front and given up as soon as the entries
have passed the code point, so a look-up of an ASCII character is short. -/

namespace Reflow.Text

/-- Closed ranges of code points, ascending and disjoint. -/
abbrev Ranges := List (Nat × Nat)

/-- Is the code point in one of the ranges? -/
def Ranges.contains : Ranges → Nat → Bool
  | [], _ => false
  | (lo, hi) :: rest, c =>
    if c < lo then false else if c ≤ hi then true else Ranges.contains rest c

/-- The first code point of the range that holds the given one. -/
def Ranges.start? : Ranges → Nat → Option Nat
  | [], _ => none
  | (lo, hi) :: rest, c =>
    if c < lo then none else if c ≤ hi then some lo else Ranges.start? rest c

/-- The code points `first`, `first + stride`, … up to `last`, each mapped by adding `offset`. -/
structure CaseRun where
  first : Nat
  last : Nat
  stride : Nat
  offset : Int
  deriving Repr, DecidableEq

/-- The image of a code point under a list of runs. -/
def CaseRun.map? : List CaseRun → Nat → Option Nat
  | [], _ => none
  | r :: rest, c =>
    if c < r.first then none
    else if c ≤ r.last ∧ (c - r.first) % r.stride = 0 then some ((c : Int) + r.offset).toNat
    else CaseRun.map? rest c

end Reflow.Text
