import WireCodec.Decimal

/-
**Double precision numbers as exact fractions.**

A finite number is a sign, a mantissa below 2^53 and a power of two; nothing here rounds except
`Binary64.ofQuotient`, which takes the nearest number to an exact quotient, a tie going to the
even mantissa.

Main definitions:

* `Binary64`: not a number, an infinity, or a finite number;
* `Binary64.ofQuotient`, `Binary64.ofDecimal`: the nearest number to a fraction or to a decimal;
* `Binary64.truncate`, `Binary64.isIntegral`, `Binary64.isSafeInteger`: the integer part, and
  which numbers are integers that no other number is confused with.
-/

set_option relaxedAutoImplicit false
set_option autoImplicit false

namespace WireCodec

/-- A double precision number.  A finite one is `mantissa · 2 ^ exponent` with a sign. -/
inductive Binary64 where
  | nan
  | infinite (negative : Bool)
  | finite (negative : Bool) (mantissa : Nat) (exponent : Int)
  deriving DecidableEq, Repr

namespace Binary64

/-- How many bits a mantissa has. -/
def precision : Nat := 53

/-- The least exponent. -/
def minExponent : Int := -1074

/-- The greatest exponent. -/
def maxExponent : Int := 971

/-- A power of two. -/
def twoTo (n : Nat) : Nat := Nat.pow 2 n

/-- The greatest integer of 53 bits. -/
def maxSafe : Nat := twoTo precision - 1

/-- Zero with a sign. -/
def zero (negative : Bool) : Binary64 := .finite negative 0 minExponent

/-! ### Rounding -/

/-- The integer nearest to `n / d`, the even one of two. -/
def roundQuotient (n d : Nat) : Nat :=
  let q := n / d
  let r := n % d
  if 2 * r < d then q else if d < 2 * r then q + 1 else q + q % 2

/-- The greatest `g` with `2 ^ g ≤ n / d`, for positive `n` and `d`. -/
def floorLog2 (n d : Nat) : Int :=
  let guess : Int := (n.log2 : Int) - (d.log2 : Int)
  if d * twoTo guess.toNat ≤ n * twoTo (-guess).toNat then guess else guess - 1

/-- The number with a mantissa of at most 53 bits, perhaps one more after rounding up. -/
def ofRounded (negative : Bool) (mantissa : Nat) (exponent : Int) : Binary64 :=
  let carried := mantissa = twoTo precision
  let m := if carried then twoTo (precision - 1) else mantissa
  let e := if carried then exponent + 1 else exponent
  if maxExponent < e then .infinite negative else .finite negative m e

/-- The number nearest to `n / d`, for positive `d`; an infinity from halfway past the greatest
finite one. -/
def ofQuotient (negative : Bool) (n d : Nat) : Binary64 :=
  if n = 0 then zero negative
  else
    let e := max (floorLog2 n d - (precision - 1)) minExponent
    ofRounded negative (roundQuotient (n * twoTo (-e).toNat) (d * twoTo e.toNat)) e

/-- The number nearest to `coefficient · 10 ^ exponent`.  Decimals of magnitude past 10^310 or
below 10^-330 are not worked out: they lie beyond the greatest and below half the least number. -/
def ofDecimal (negative : Bool) (coefficient : Nat) (exponent : Int) : Binary64 :=
  let magnitude : Int := ((Decimal.digits coefficient).length : Int) + exponent
  if coefficient = 0 then zero negative
  else if 310 < magnitude then .infinite negative
  else if magnitude < -330 then zero negative
  else ofQuotient negative (coefficient * Decimal.tenTo exponent.toNat)
    (Decimal.tenTo (-exponent).toNat)

/-! ### Integers -/

/-- A number without a fractional part. -/
def isIntegral : Binary64 → Bool
  | .finite _ m e => m % twoTo (-e).toNat == 0
  | _ => false

/-- The size of the integer part of a finite number, 0 for the others. -/
def magnitude : Binary64 → Nat
  | .finite _ m e => m * twoTo e.toNat / twoTo (-e).toNat
  | _ => 0

/-- A number with a minus sign. -/
def isNegative : Binary64 → Bool
  | .nan => false
  | .infinite negative => negative
  | .finite negative _ _ => negative

/-- The integer part, rounded toward zero. -/
def truncate (x : Binary64) : Int :=
  if x.isNegative then -(x.magnitude : Int) else (x.magnitude : Int)

/-- An integer of at most 53 bits. -/
def isSafeInteger (x : Binary64) : Bool := x.isIntegral && decide (x.magnitude ≤ maxSafe)

/-- A finite number. -/
def isFinite : Binary64 → Bool
  | .finite .. => true
  | _ => false

/-- Zero of either sign. -/
def isZero : Binary64 → Bool
  | .finite _ m _ => m == 0
  | _ => false

end Binary64

end WireCodec
