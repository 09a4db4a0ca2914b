import WireCodec.Binary64

/-
**Number tokens.**

A number in a JSON text is kept as it is written: the sign, the digits before and after the point
and the exponent part.  `Json.Numeral.text` gives the token back unit for unit, and
`Json.Numeral.double` is the double precision number nearest to it.

Main definitions:

* `Json.Numeral`, `Json.Exponent`: a token in its parts;
* `Json.Numeral.text`: the token;
* `Json.Numeral.double`: its value, rounded.
-/

set_option relaxedAutoImplicit false
set_option autoImplicit false

namespace WireCodec

namespace Json

/-- The exponent part of a number token. -/
structure Exponent where
  /-- Written with a capital `E`. -/
  capital : Bool
  /-- The sign, if one is written: whether it is a minus. -/
  sign : Option Bool
  digits : List Digit
  deriving DecidableEq, Repr

/-- A number token. -/
structure Numeral where
  negative : Bool
  /-- The digits before the point. -/
  whole : List Digit
  /-- The digits after the point, if there is one. -/
  fraction : Option (List Digit)
  exponent : Option Exponent
  deriving DecidableEq, Repr

/-- The token of a natural number. -/
def Numeral.ofNat (n : Nat) : Numeral := ⟨false, Decimal.digits n, none, none⟩

/-- The sign of an exponent, written. -/
def Exponent.signText : Option Bool → Text
  | none => []
  | some negative => [if negative then Decimal.minus else Text.unit '+']

/-- The exponent part, written. -/
def Exponent.text (e : Exponent) : Text :=
  (if e.capital then Text.unit 'E' else Text.unit 'e')
    :: (Exponent.signText e.sign ++ Decimal.spell e.digits)

/-- The exponent that an exponent part denotes. -/
def Exponent.value (e : Exponent) : Int :=
  if e.sign = some true then -(Decimal.number e.digits : Int) else (Decimal.number e.digits : Int)

/-- The point and the digits after it, written. -/
def Numeral.fractionText : Option (List Digit) → Text
  | none => []
  | some ds => Text.unit '.' :: Decimal.spell ds

/-- The exponent part, if there is one, written. -/
def Numeral.exponentText : Option Exponent → Text
  | none => []
  | some e => e.text

/-- The token as it is written. -/
def Numeral.text (n : Numeral) : Text :=
  (if n.negative then [Decimal.minus] else []) ++ Decimal.spell n.whole
    ++ Numeral.fractionText n.fraction ++ Numeral.exponentText n.exponent

/-- The double precision number nearest to the token. -/
def Numeral.double (n : Numeral) : Binary64 :=
  let fraction := n.fraction.getD []
  let exponent := (n.exponent.map Exponent.value).getD 0
  Binary64.ofDecimal n.negative (Decimal.number (n.whole ++ fraction))
    (exponent - fraction.length)

end Json

end WireCodec
