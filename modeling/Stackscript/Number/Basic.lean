/-!
# Numbers

The language has one kind of number, the binary double of 64 bits. A `Number` is held by its bit
pattern, so two numbers are equal as terms exactly when their patterns are, and the fields of the
pattern can be read off with exact arithmetic.

* `Number`, `Number.ofFloat`, `Number.toFloat`;
* the fields: `isNegative`, `exponentField`, `fraction`, `isNaN`, `isFinite`;
* a finite number is `± significand * 2 ^ exponent` (`significand`, `exponent`), and
  `ofDyadic` packs such a product again;
* `nearestNat`, `ofNat`, the number nearest to a natural number;
* `toNat?`, the natural number that a number is, if it is one.
-/

namespace Stackscript

/-- `n / d` rounded to the nearest natural number, a half to the even one. -/
def roundDiv (n d : Nat) : Nat :=
  let q := n / d
  let r := 2 * (n % d)
  if d < r ∨ (r = d ∧ q % 2 = 1) then q + 1 else q

/-- A number of the language: a binary double, held by its bit pattern. -/
structure Number where
  bits : UInt64
deriving DecidableEq, Inhabited

namespace Number

/-- The number of a machine float. -/
def ofFloat (f : Float) : Number := ⟨f.toBits⟩

/-- The machine float of a number. -/
def toFloat (n : Number) : Float := Float.ofBits n.bits

/-! ## The fields of the pattern -/

/-- The sign bit is set. -/
def isNegative (n : Number) : Bool := n.bits.toNat / Nat.pow 2 63 == 1

/-- The eleven bits of the biased exponent. -/
def exponentField (n : Number) : Nat := n.bits.toNat / Nat.pow 2 52 % Nat.pow 2 11

/-- The fifty-two bits of the fraction. -/
def fraction (n : Number) : Nat := n.bits.toNat % Nat.pow 2 52

/-- The number is neither infinite nor NaN. -/
def isFinite (n : Number) : Bool := n.exponentField != 2047

/-- The number is NaN. -/
def isNaN (n : Number) : Bool := n.exponentField == 2047 && n.fraction != 0

/-- The significand of a finite number, with the leading bit that the pattern leaves out. -/
def significand (n : Number) : Nat :=
  if n.exponentField = 0 then n.fraction else Nat.pow 2 52 + n.fraction

/-- The power of two by which the significand of a finite number is scaled. -/
def exponent (n : Number) : Int :=
  if n.exponentField = 0 then -1074 else (n.exponentField : Int) - 1075

/-- The number is a zero of either sign. -/
def isZero (n : Number) : Bool := n.isFinite && n.significand == 0

/-! ## Packing -/

/-- The number with the given sign bit and the given remaining sixty-three bits. -/
def ofFields (negative : Bool) (rest : Nat) : Number :=
  ⟨UInt64.ofNat (if negative then Nat.pow 2 63 + rest else rest)⟩

/-- Infinity of the given sign. -/
def infinity (negative : Bool) : Number := ofFields negative (2047 * Nat.pow 2 52)

/-- The quiet NaN. -/
def nan : Number := ofFields false (2047 * Nat.pow 2 52 + Nat.pow 2 51)

/-- `m * 2 ^ k` for a `k` of either sign, any fraction dropped. -/
def scale (m : Nat) (k : Int) : Nat :=
  if k < 0 then m / Nat.pow 2 k.natAbs else m * Nat.pow 2 k.natAbs

/-- The number `± m * 2 ^ e`; exact whenever that product is a double. -/
def ofDyadic (negative : Bool) (m : Nat) (e : Int) : Number :=
  if m = 0 then ofFields negative 0
  else
    let top : Int := m.log2 + e
    if 1023 < top then infinity negative
    else if top < -1022 then ofFields negative (scale m (e + 1074))
    else ofFields negative ((top + 1022).toNat * Nat.pow 2 52 + scale m (52 - m.log2))

/-- The natural number nearest to `n` among those with at most 53 significant bits. -/
def nearestNat (n : Nat) : Nat :=
  let unit := Nat.pow 2 (n.log2 - 52)
  roundDiv n unit * unit

/-- The number nearest to a natural number. -/
def ofNat (n : Nat) : Number := ofDyadic false (nearestNat n) 0

/-- Zero. -/
def zero : Number := ofNat 0

/-- One. -/
def one : Number := ofNat 1

/-- The natural number that `n` is, if it is one; both zeros are `0`. -/
def toNat? (n : Number) : Option Nat :=
  if !n.isFinite then none
  else if n.significand = 0 then some 0
  else if n.isNegative then none
  else if n.exponent < 0 then
    let unit := Nat.pow 2 n.exponent.natAbs
    if n.significand % unit = 0 then some (n.significand / unit) else none
  else some (n.significand * Nat.pow 2 n.exponent.natAbs)

end Number

end Stackscript
