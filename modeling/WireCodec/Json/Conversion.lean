import WireCodec.Binary64.Shortest
import WireCodec.Binary64.Reading
import WireCodec.Json.Kind
import WireCodec.Json.Printer

/-
**Values as texts and integers.**

What stands in the place of a number token's text may be any value, and is then read as a text.  A
value without members is spelled.  A value with members is asked for its methods `toString` and
`valueOf`, in an order that depends on whether a text or a number is wanted; the first of them
that a root supplies and that gives a value without members decides.

Main definitions:

* `Json.Value.spell`: the text of a value without members;
* `Json.Value.joinItems`: the text of a value that is written as an array;
* `Json.Wanted`, `Json.Value.simplify`: a value turned into one without members;
* `Json.Value.toText`, `Json.Value.toInteger`: a value read as a text and as an integer.
-/

set_option relaxedAutoImplicit false
set_option autoImplicit false

namespace WireCodec

namespace Json

namespace Value

/-! ### Values without members -/

/-- The text that every object has that does not say otherwise. -/
def objectText : Text := "[object Object]"

/-- The text of a value without members. -/
def spell : Value → Text
  | .missing => "undefined"
  | .null => nullWord
  | .bool b => if b then trueWord else falseWord
  | .text t => t
  | .double x => x.text
  | .integer i => Decimal.intText i
  | _ => objectText

/-- The number of a value without members in double precision.  An integer of any size is not
rounded. -/
def measure : Value → Except Misuse Binary64
  | .null => .ok (Binary64.zero false)
  | .bool b => .ok (Binary64.ofQuotient false b.toNat 1)
  | .text t => .ok (Binary64.ofText t)
  | .double x => .ok x
  | .integer _ => .error .integerForDouble
  | _ => .ok .nan

/-! ### The number of a token's text -/

/-- A text without an exponent part at its end. -/
def dropExponent (t : Text) : Text :=
  let ahead := t.reverse.dropWhile fun u => (Digit.ofUnit? u).isSome
  if ahead.length = t.length then t
  else
    let unsigned :=
      match ahead with
      | u :: rest => if u = Decimal.minus ∨ u = Text.unit '+' then rest else ahead
      | [] => []
    match unsigned with
    | u :: rest => if u = Text.unit 'e' ∨ u = Text.unit 'E' then rest.reverse else t
    | [] => t

/-- The digits of a number's text without the point, the exponent, the sign and the zeros at both
ends. -/
def significantDigits (t : Text) : Text :=
  let zero := Text.unit '0'
  let t := (dropExponent t).erase (Text.unit '.')
  let t := (t.reverse.dropWhile (· == zero)).reverse
  let t := match t with
    | u :: rest => if u = Decimal.minus then rest else t
    | [] => []
  t.dropWhile (· == zero)

/-- The number that the text of a token denotes: in double precision if that keeps its digits or
its fraction, else as an integer. -/
def tokenNumber (t : Text) : Except Misuse Value :=
  let x := Binary64.ofPrefix t
  if significantDigits t = significantDigits x.text then .ok (.double x)
  else
    match Decimal.readInt? t with
    | some i => .ok (.integer i)
    | none =>
        if !x.isFinite then .error (.overflow t x)
        else if x.isZero then .error (.underflow t x)
        else .ok (.double x)

/-! ### Values with members -/

/-- What a value is wanted for. -/
inductive Wanted where
  | text
  | number
  deriving DecidableEq, Repr

/-- The name of the method that gives a text. -/
def textMethod : Text := "toString"
/-- The name of the method that gives a number. -/
def numberMethod : Text := "valueOf"
/-- The name of the method that writes the items of an array. -/
def joinMethod : Text := "join"

/-- The methods that are asked, in this order. -/
def Wanted.methods : Wanted → List Text
  | .text => [textMethod, numberMethod]
  | .number => [numberMethod, textMethod]

/-- The greatest length of an array. -/
def maxLength : Nat := 0xFFFFFFFF

/-- The greatest length of a text that the items of an array are joined to.  No other text is held
to it: neither a text that is read, nor a message in which a joined text is quoted. -/
def maxTextLength : Nat := 0x1FFFFFE8

/-- The length that a value without members stands for: the integer part of its number, and zero
for a negative one or for none.  An array has no greater length than `maxLength`. -/
def lengthOf (v : Value) : Except Misuse Nat :=
  match v.measure with
  | .error misuse => .error misuse
  | .ok (.infinite false) => .error .lengthTooLarge
  | .ok x =>
      let length := x.truncate.toNat
      if length ≤ maxLength then .ok length else .error .lengthTooLarge

/-- A place put into an ascending list of places, unless it is there. -/
def insertPlace (i : Nat) : List Nat → List Nat
  | [] => [i]
  | j :: places =>
      if i < j then i :: j :: places
      else if i = j then j :: places
      else j :: insertPlace i places

/-- The places below a length that a value or its parents fill, in ascending order. -/
def places (v : Value) (length : Nat) : List Nat :=
  (v.chainKeys.filterMap fun key => place? key length).foldr insertPlace []

/-- Texts at their places, each place up to the last one followed by a comma.  All places before
`first` are written already. -/
def commaSeparated (length first : Nat) : List (Nat × Text) → Text
  | [] => List.replicate (length - 1 - first) comma
  | (i, t) :: parts =>
      List.replicate (i - first) comma ++ t ++ commaSeparated length i parts

/-- The items of a value that is written as an array: those at the places below its length. -/
def joinItems (simplify : Wanted → Value → Except Misuse Value) (v : Value) :
    Except Misuse Text := do
  let length ← (← simplify .number (v.get lengthKey)).lengthOf
  let parts ← (v.places length).mapM fun i =>
    match v.get (Decimal.text i) with
    | .missing | .null => .ok (i, [])
    | item => (simplify .text item).map fun x => (i, x.spell)
  if parts.foldl (fun n part => n + part.2.length) (length - 1) ≤ maxTextLength then
    .ok (commaSeparated length 0 parts)
  else .error .textTooLong

/-- What a root's method gives for a value, if it is a value without members. -/
def call (simplify : Wanted → Value → Except Misuse Value) (owner : Root) (name : Text)
    (v : Value) : Except Misuse (Option Value) :=
  if name = textMethod then
    match owner with
    | .array =>
        match v.find? joinMethod with
        | some (.method _) => (joinItems simplify v).map fun t => some (.text t)
        | _ => .ok (some (.text objectText))
    | .token =>
        let x := v.get valueKey
        .ok (if x.isComposite then none else some x)
    | _ => .ok (some (.text objectText))
  else
    match owner with
    | .token =>
        match v.get valueKey with
        | .text t => (tokenNumber t).map some
        | .null => .error (.memberOfNull "replace")
        | x => (simplify .text x).bind fun _ => .error .notTokenText
    | _ => .ok none

/-- The first of some methods that a root supplies and that gives a value without members. -/
def firstAnswer (simplify : Wanted → Value → Except Misuse Value) (v : Value) :
    List Text → Except Misuse Value
  | [] => .error .notConvertible
  | name :: names =>
      match v.find? name with
      | some (.method owner) =>
          match call simplify owner name v with
          | .error misuse => .error misuse
          | .ok (some x) => .ok x
          | .ok none => firstAnswer simplify v names
      | _ => firstAnswer simplify v names

/-- A value turned into one without members, down to the depth `fuel`. -/
def simplifyTo : Nat → Wanted → Value → Except Misuse Value
  | 0, _, _ => .error .notConvertible
  | fuel + 1, wanted, v =>
      if v.isComposite then firstAnswer (simplifyTo fuel) v wanted.methods else .ok v

/-- A value turned into one without members.  Each method goes one level down. -/
def simplify (wanted : Wanted) (v : Value) : Except Misuse Value :=
  simplifyTo (v.depth + 1) wanted v

/-! ### Texts and integers -/

/-- A value read as a text. -/
def toText (v : Value) : Except Misuse Text := (v.simplify .text).map spell

/-- A value without members read as an integer: the integer part of a number, the number that a
text of digits denotes. -/
def plainInteger : Value → Int
  | .integer i => i
  | .double x => x.truncate
  | v => ((Decimal.read? v.spell).getD 0 : Nat)

/-- A value read as an integer. -/
def toInteger (v : Value) : Except Misuse Int := (v.simplify .number).map plainInteger

end Value

end Json

end WireCodec
