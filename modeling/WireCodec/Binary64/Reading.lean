import WireCodec.Binary64
import WireCodec.Base16

/-
**Double precision numbers read from text.**

Main definitions:

* `Binary64.scan`: the decimal at the beginning of a text, and what follows it;
* `Binary64.ofPrefix`: the number at the beginning of a text, whatever follows;
* `Binary64.ofText`: the number that a whole text denotes.
-/

set_option relaxedAutoImplicit false
set_option autoImplicit false

namespace WireCodec

namespace Binary64

/-! ### Decimals -/

/-- A sign at the beginning of a text: whether it is a minus, and what follows. -/
def scanSign : Text → Bool × Text
  | [] => (false, [])
  | u :: t =>
      if u = Decimal.minus then (true, t)
      else if u = Text.unit '+' then (false, t)
      else (false, u :: t)

/-- The digits after a point, and what follows them.  Without a point nothing is taken. -/
def scanFraction : Text → List Digit × Text
  | [] => ([], [])
  | u :: t => if u = Text.unit '.' then Decimal.takeDigits t else ([], u :: t)

/-- A complete exponent part, and what follows it.  An exponent part without digits is none. -/
def scanExponent : Text → Int × Text
  | [] => (0, [])
  | u :: t =>
      if u = Text.unit 'e' ∨ u = Text.unit 'E' then
        let (negative, t') := scanSign t
        match Decimal.takeDigits t' with
        | ([], _) => (0, u :: t)
        | (ds, rest) =>
            (if negative then -(Decimal.number ds : Int) else (Decimal.number ds : Int), rest)
      else (0, u :: t)

/-- The decimal or infinity at the beginning of a text, and what follows it. -/
def scan (t : Text) : Option (Binary64 × Text) :=
  let (negative, t) := scanSign t
  match Text.after? "Infinity" t with
  | some rest => some (.infinite negative, rest)
  | none =>
      let (whole, t) := Decimal.takeDigits t
      let (fraction, t) := scanFraction t
      if whole = [] ∧ fraction = [] then none
      else
        let (exponent, t) := scanExponent t
        some (ofDecimal negative (Decimal.number (whole ++ fraction))
          (exponent - fraction.length), t)

/-- The number at the beginning of a text, after white space; not a number if there is none. -/
def ofPrefix (t : Text) : Binary64 :=
  match scan (t.dropWhile Text.isBlank) with
  | some (x, _) => x
  | none => .nan

/-! ### Whole texts -/

/-- The number that a text of digits below `base` denotes. -/
def radixNumber? (base : Nat) (t : Text) : Option Nat :=
  t.foldl (fun n u =>
    match n, Base16.digit? u with
    | some n, some d => if d.val < base then some (base * n + d.val) else none
    | _, _ => none) (if t = [] then none else some 0)

/-- The integer that a text with a mark of its base denotes. -/
def marked? (t : Text) : Option (Option Nat) :=
  match t with
  | u :: mark :: digits =>
      if u ≠ Text.unit '0' then none
      else if Text.lowerUnit mark = Text.unit 'x' then some (radixNumber? 16 digits)
      else if Text.lowerUnit mark = Text.unit 'o' then some (radixNumber? 8 digits)
      else if Text.lowerUnit mark = Text.unit 'b' then some (radixNumber? 2 digits)
      else none
  | _ => none

/-- The number that a text denotes apart from white space at its ends: zero for an empty one, not
a number for one that is no numeral. -/
def ofText (t : Text) : Binary64 :=
  let t := Text.trim t
  if t = [] then zero false
  else
    match marked? t with
    | some (some n) => ofQuotient false n 1
    | some none => .nan
    | none =>
        match scan t with
        | some (x, []) => x
        | _ => .nan

end Binary64

end WireCodec
