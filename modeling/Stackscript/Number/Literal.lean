import Stackscript.Number.Basic

/-!
# Reading decimals

A decimal text is `digits`, an optional fraction `.digits` and an optional exponent `e` or `E` with
an optional sign and `digits`. It stands for the double nearest to its value.

* `Number.ofDecimal`, the double nearest to `digits * 10 ^ exponent`;
* `Number.read?`, which reads exactly the decimal texts.
-/

namespace Stackscript.Number

/-- The value of a list of decimal digits. -/
def digitsValue (ds : List Char) : Nat :=
  ds.foldl (fun acc c => 10 * acc + (c.toNat - '0'.toNat)) 0

/-- The double nearest to `digits * 10 ^ exponent`; beyond `10 ^ 400` that is infinity and below
`10 ^ -400` it is zero. -/
def ofDecimal (digits : Nat) (exponent : Int) : Number :=
  let position : Int := (toString digits).length + exponent
  if digits = 0 ∨ position < -400 then zero
  else if 400 < position then infinity false
  else ofFloat (Float.ofScientific digits (exponent < 0) exponent.natAbs)

/-- A non-empty run of digits at the start of a text, and what follows it. -/
def readDigits? (cs : List Char) : Option (List Char × List Char) :=
  match cs.takeWhile Char.isDigit with
  | [] => none
  | ds => some (ds, cs.dropWhile Char.isDigit)

/-- The exponent part that a text consists of; the empty text is exponent zero. -/
def readExponent? : List Char → Option Int
  | [] => some 0
  | c :: cs =>
    if c = 'e' ∨ c = 'E' then
      let (negative, cs) := match cs with
        | '-' :: rest => (true, rest)
        | '+' :: rest => (false, rest)
        | rest => (false, rest)
      match readDigits? cs with
      | some (ds, []) =>
        let e : Int := digitsValue ds
        some (if negative then -e else e)
      | _ => none
    else none

/-- The number that a decimal text stands for, `none` for any other text. -/
def read? (cs : List Char) : Option Number := do
  let (whole, rest) ← readDigits? cs
  let (frac, rest) ← match rest with
    | '.' :: rest => readDigits? rest
    | rest => some ([], rest)
  let e ← readExponent? rest
  return ofDecimal (digitsValue (whole ++ frac)) (e - frac.length)

end Stackscript.Number
