import Stackscript.Number.Shortest

/-!
# The texts of numbers

A number is written with its shortest decimal. Listings and printed values write it positionally
whatever its size and differ only in the spelling of infinity; inspection text keeps a fraction
digit and takes an exponent outside a middle range.

* `Decimal.positional`, `Decimal.scientific`;
* `Number.text`, `Number.listing`, `Number.inspect`.
-/

namespace Stackscript

namespace Decimal

/-- `k` zeros. -/
def zeros (k : Nat) : String := String.ofList (List.replicate k '0')

/-- The position of the leading digit: `10 ^ position ≤ x < 10 ^ (position + 1)`. -/
def position (d : Decimal) : Int := (toString d.digits).length + d.exponent - 1

/-- The decimal without an exponent and without a fraction unless it has one. -/
def positional (d : Decimal) : String :=
  let ds := (toString d.digits).toList
  if 0 ≤ d.exponent then String.ofList ds ++ zeros d.exponent.toNat
  else
    let places := d.exponent.natAbs
    if places < ds.length then
      String.ofList (ds.take (ds.length - places)) ++ "." ++
        String.ofList (ds.drop (ds.length - places))
    else "0." ++ zeros (places - ds.length) ++ String.ofList ds

/-- The decimal with one digit before the point and an exponent. -/
def scientific (d : Decimal) : String :=
  let mantissa := match (toString d.digits).toList with
    | [] => ""
    | [c] => String.singleton c
    | c :: cs => String.singleton c ++ "." ++ String.ofList cs
  mantissa ++ "e" ++ toString d.position

end Decimal

namespace Number

/-- The text of a number whose infinity is spelled `infinity` and whose finite non-zero magnitudes
are written by `write`. -/
def textWith (infinity zero : String) (write : Decimal → String) (n : Number) : String :=
  if n.isNaN then "NaN"
  else
    let magnitude :=
      if !n.isFinite then infinity else if n.isZero then zero else write n.shortest
    if n.isNegative then "-" ++ magnitude else magnitude

/-- The text of a number as a value: what programs print. -/
def text (n : Number) : String := n.textWith "Infinity" "0" Decimal.positional

/-- The text of a number in tokens and code listings. -/
def listing (n : Number) : String := n.textWith "inf" "0" Decimal.positional

/-- The inspection text of a number: positional from `1e-4` up to `1e16`, with a fraction digit
always, and with an exponent elsewhere. -/
def inspect (n : Number) : String :=
  n.textWith "inf" "0.0" fun d =>
    if -4 ≤ d.position ∧ d.position < 16 then
      if 0 ≤ d.exponent then d.positional ++ ".0" else d.positional
    else d.scientific

end Number

end Stackscript
