import Stackscript.Number.Basic

/-!
# Arithmetic on numbers

The four operations, negation, the comparisons and the elementary functions are those of the
machine's doubles. The remainder is computed exactly on significands.

* `add`, `sub`, `mul`, `div`, `neg`, `lt`, `le`, `eq`, `sqrt`, `floor`, `abs`, `pow`;
* `truncRem`, the exact remainder that takes the sign of the dividend;
* `modulo`, the remainder made non-negative, which is the language's `%`.
-/

namespace Stackscript.Number

def add (a b : Number) : Number := ofFloat (a.toFloat + b.toFloat)

def sub (a b : Number) : Number := ofFloat (a.toFloat - b.toFloat)

def mul (a b : Number) : Number := ofFloat (a.toFloat * b.toFloat)

def div (a b : Number) : Number := ofFloat (a.toFloat / b.toFloat)

def neg (a : Number) : Number := ofFloat (-a.toFloat)

/-- Numeric equality: the two zeros are equal, and NaN differs from itself. -/
def eq (a b : Number) : Bool := a.toFloat == b.toFloat

/-- Numeric order; false whenever one side is NaN. -/
def lt (a b : Number) : Bool := decide (a.toFloat < b.toFloat)

/-- Numeric order or equality; false whenever one side is NaN. -/
def le (a b : Number) : Bool := decide (a.toFloat ≤ b.toFloat)

def abs (a : Number) : Number := ofFloat a.toFloat.abs

def sqrt (a : Number) : Number := ofFloat a.toFloat.sqrt

def floor (a : Number) : Number := ofFloat a.toFloat.floor

def pow (a b : Number) : Number := ofFloat (a.toFloat.pow b.toFloat)

/-- The circle constant, rounded to a double. -/
def pi : Number := ⟨0x400921FB54442D18⟩

/-- The exact remainder of `a` by `b` with the sign of `a`: both significands are brought to the
smaller of the two exponents and divided as natural numbers. -/
def truncRem (a b : Number) : Number :=
  if a.isNaN || b.isNaN || !a.isFinite || b.isZero then nan
  else if !b.isFinite then a
  else
    let e := min a.exponent b.exponent
    let m := scale a.significand (a.exponent - e) % scale b.significand (b.exponent - e)
    ofDyadic a.isNegative m e

/-- The remainder of `a` by `b` moved into the non-negative numbers by adding `|b|` if need be. A
zero remainder keeps the sign of `a`. -/
def modulo (a b : Number) : Number :=
  let r := truncRem a b
  if r.lt zero then r.add b.abs else r

end Stackscript.Number
