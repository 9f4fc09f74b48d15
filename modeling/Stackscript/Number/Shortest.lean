import Stackscript.Number.Basic

/-!
# Shortest decimals

The decimal that stands for a finite non-zero number is the one with the fewest digits among all
decimals that read back as the number, and of those the one nearest to it; an exact tie goes up.

For a number `m * 2 ^ q` the reals that read back as it form an interval around it, ends included
exactly when `m` is even. Each count of digits has a decimal grid, and only the two neighbours of
the number on that grid have to be tried.

* `Decimal`, a positive decimal `digits * 10 ^ exponent`;
* `Interval`, the reals that read back as a number, over one common denominator;
* `Number.shortest`.
-/

namespace Stackscript

/-- A positive decimal, `digits * 10 ^ exponent`. -/
structure Decimal where
  digits : Nat
  exponent : Int
deriving DecidableEq

/-- The reals that read back as a number, as the range from `low / den` to `high / den` around
`mid / den`. -/
structure Interval where
  low : Nat
  mid : Nat
  high : Nat
  den : Nat
  closed : Bool

namespace Interval

/-- The interval of a finite non-zero number. Below a power of two the doubles are twice as dense,
so its lower half is half as wide. -/
def ofNumber (n : Number) : Interval :=
  let m := n.significand
  let up := Nat.pow 2 n.exponent.toNat
  let down := Nat.pow 2 (-n.exponent).toNat
  let below := if n.fraction = 0 ∧ 1 < n.exponentField then 1 else 2
  { low := (4 * m - below) * up, mid := 4 * m * up, high := (4 * m + 2) * up
    den := 4 * down, closed := m % 2 == 0 }

/-- The interval over a denominator that makes the grid of step `10 ^ g` integral: grid point `c`
is `c * step` there. -/
def onGrid (i : Interval) (g : Int) : Interval × Nat :=
  let shrink := Nat.pow 10 (-g).toNat
  ({ i with low := i.low * shrink, mid := i.mid * shrink, high := i.high * shrink },
    i.den * Nat.pow 10 g.toNat)

/-- The integer `x` lies in the interval. -/
def holds (i : Interval) (x : Nat) : Bool :=
  if i.closed then decide (i.low ≤ x ∧ x ≤ i.high) else decide (i.low < x ∧ x < i.high)

/-- The number of the interval is at least `10 ^ k`. -/
def atLeastPower (i : Interval) (k : Int) : Bool :=
  decide (i.den * Nat.pow 10 k.toNat ≤ i.mid * Nat.pow 10 (-k).toNat)

/-- The `k` with `10 ^ k ≤ x < 10 ^ (k + 1)` for the number `x` of the interval, found from the
position `e` of its leading bit. -/
def decimalPosition (i : Interval) (e : Int) : Int :=
  let k := (e * 1233) / 4096
  if !i.atLeastPower k then k - 1
  else if i.atLeastPower (k + 1) then k + 1
  else k

/-- The nearer of the two neighbours on the grid of step `10 ^ g` that lie in the interval, if one
does. -/
def nearestOnGrid (i : Interval) (g : Int) : Option Nat :=
  let (j, step) := i.onGrid g
  let c := j.mid / step
  let lower := j.holds (c * step)
  let upper := j.holds ((c + 1) * step)
  if lower && upper then
    if j.mid - c * step < (c + 1) * step - j.mid then some c else some (c + 1)
  else if lower then some c
  else if upper then some (c + 1)
  else none

end Interval

/-- The shortest decimal that reads back as the magnitude of a finite non-zero number. -/
def Number.shortest (n : Number) : Decimal :=
  let i := Interval.ofNumber n
  let top := i.decimalPosition (n.significand.log2 + n.exponent)
  let found : Option Decimal := (List.range 17).findSome? fun (k : Nat) =>
    (i.nearestOnGrid (top - k)).map fun c =>
      if c = Nat.pow 10 (k + 1) then ⟨1, top + 1⟩ else ⟨c, top - k⟩
  found.getD ⟨n.significand, n.exponent⟩

end Stackscript
