import WireCodec.Binary64

/-
**The shortest decimal text of a double precision number.**

A number is written with the fewest digits that read back as the same number, and of these with
the nearest.  The digits are placed in positional notation while the point falls at most six
places before or twenty-one places after their beginning, in exponent notation otherwise.

Main definitions:

* `Binary64.Digits`, `Binary64.shortest`: the digits and where the point stands;
* `Binary64.text`: the number written out.
-/

set_option relaxedAutoImplicit false
set_option autoImplicit false

namespace WireCodec

namespace Binary64

/-- A decimal `0.d₁d₂… · 10 ^ point`. -/
structure Digits where
  digits : List Digit
  point : Int
  deriving DecidableEq, Repr

/-! ### Choosing the digits -/

/-- The `p` with `10 ^ (p - 1) ≤ n / d < 10 ^ p`, for positive `n` and `d`. -/
def decimalPoint (n d : Nat) : Int :=
  if d ≤ n then (Decimal.digits (n / d)).length
  else
    let k := (Decimal.digits (d / n)).length
    if d ≤ n * Decimal.tenTo (k - 1) then 2 - (k : Int) else 1 - (k : Int)

/-- The two multiples of `10 ^ exponent` around `n / d`, as multiples, the nearer one first. -/
def neighbours (n d : Nat) (exponent : Int) : List Nat :=
  let n := n * Decimal.tenTo (-exponent).toNat
  let d := d * Decimal.tenTo exponent.toNat
  let below := n / d
  if roundQuotient n d = below then [below, below + 1] else [below + 1, below]

/-- The decimal `coefficient · 10 ^ exponent` without zeros at its end. -/
def Digits.ofScaled (coefficient : Nat) (exponent : Int) : Digits where
  digits := ((Decimal.digits coefficient).reverse.dropWhile (· == Digit.zero)).reverse
  point := (Decimal.digits coefficient).length + exponent

/-- The first decimal with `count`, `count + 1`, … digits that reads back as the positive number
`x = n / d`, looking at `tries` many lengths. -/
def searchDigits (x : Binary64) (n d : Nat) : Nat → Nat → Digits
  | 0, count => Digits.ofScaled (n / d) count
  | tries + 1, count =>
      let exponent := decimalPoint n d - count
      match (neighbours n d exponent).find? fun c => ofDecimal false c exponent == x with
      | some c => Digits.ofScaled c exponent
      | none => searchDigits x n d tries (count + 1)

/-- The shortest digits of the positive number `mantissa · 2 ^ exponent`.  Seventeen digits always
read back. -/
def shortest (mantissa : Nat) (exponent : Int) : Digits :=
  searchDigits (.finite false mantissa exponent) (mantissa * twoTo exponent.toNat)
    (twoTo (-exponent).toNat) 17 1

/-! ### Writing -/

/-- So many zeros. -/
def zeros (n : Nat) : Text := List.replicate n (Text.unit '0')

/-- The exponent of ten, with its sign always written. -/
def exponentText (e : Int) : Text :=
  [Text.unit 'e', if e < 0 then Decimal.minus else Text.unit '+'] ++ Decimal.text e.natAbs

/-- Digits and a point, laid out. -/
def Digits.text (x : Digits) : Text :=
  let ds := Decimal.spell x.digits
  let count : Int := ds.length
  let p := x.point
  if count ≤ p ∧ p ≤ 21 then ds ++ zeros (p - count).toNat
  else if 0 < p ∧ p ≤ 21 then ds.take p.toNat ++ Text.unit '.' :: ds.drop p.toNat
  else if -6 < p ∧ p ≤ 0 then (("0." : Text) ++ zeros (-p).toNat) ++ ds
  else if ds.length ≤ 1 then ds ++ exponentText (p - 1)
  else ds.take 1 ++ Text.unit '.' :: ds.drop 1 ++ exponentText (p - 1)

/-- A sign in front of a negative number. -/
def signed (negative : Bool) (t : Text) : Text := if negative then Decimal.minus :: t else t

/-- A double precision number, written.  Zero has no sign. -/
def text : Binary64 → Text
  | .nan => "NaN"
  | .infinite negative => signed negative "Infinity"
  | .finite negative m e => if m = 0 then "0" else signed negative (shortest m e).text

end Binary64

end WireCodec
