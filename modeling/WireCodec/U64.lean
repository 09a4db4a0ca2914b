import WireCodec.Decoding

/-
**Unsigned integers of 64 bits on the wire.**

A number arrives as a JSON text of digits, so that readers with double precision keep every bit,
or as a bare number token.  It is always written as a text.

Main definitions:

* `U64`: a number up to 2^64 - 1;
* `U64.text`, `U64.toDoc`: its text and its canonical document;
* `U64.equals`: the comparison of two numbers;
* `U64.ofInt`, `U64.ofNumber`: numbers that are given, checked;
* `U64.ofText`, `U64.ofValue`, `U64.decode`: readers of a literal, of a JSON value and of raw JSON
  text;
* `U64.codec`: the codec.
-/

set_option relaxedAutoImplicit false
set_option autoImplicit false

namespace WireCodec

open Json (Value Doc)

/-- An unsigned integer of 64 bits. -/
@[ext] structure U64 where
  value : Nat
  value_le : value ≤ maxU64
  deriving DecidableEq, Repr

/-- A number that is given: in double precision or an integer of any size. -/
inductive Number where
  | double (x : Binary64)
  | integer (i : Int)
  deriving DecidableEq, Repr

namespace U64

/-- The number in base ten. -/
def text (u : U64) : Text := Decimal.text u.value

/-- The canonical document: the number as a text. -/
def toDoc (u : U64) : Doc := .text u.text

/-- The canonical JSON text. -/
def encode (u : U64) : Text := u.toDoc.print

/-- Numbers are compared by value. -/
def equals (a b : U64) : Bool := a.value == b.value

/-! ### Numbers -/

/-- The number with an integer's value. -/
def ofInt (i : Int) : Except DecodeError U64 :=
  if h : 0 ≤ i ∧ i.toNat ≤ maxU64 then .ok ⟨i.toNat, h.2⟩ else .error (.outOfRange i)

/-- The number with the value of a number that is given.  In double precision only safe integers
are taken. -/
def ofNumber : Number → Except DecodeError U64
  | .integer i => ofInt i
  | .double x => if x.isSafeInteger then ofInt x.truncate else .error (.notSafeInteger x)

/-! ### Literals -/

/-- The number that a literal of one or more digits denotes. -/
def ofText (literal : Text) : Except DecodeError U64 :=
  match Decimal.read? literal with
  | none => .error (.invalidLiteral literal)
  | some n => if h : n ≤ maxU64 then .ok ⟨n, h⟩ else .error (.literalTooLarge literal)

/-- The number that a value denotes which stands in the place of a number token's text.  It is
read as a text to see whether it is a literal, and then as an integer. -/
def ofTokenText (v : Value) : Except Failure U64 :=
  match v.toText with
  | .error m => .error (.misuse m)
  | .ok literal =>
      if (Decimal.read? literal).isNone then .error (.decode (.invalidLiteral literal))
      else
        match v.toInteger with
        | .error m => .error (.misuse m)
        | .ok i =>
            if h : i.toNat ≤ maxU64 then .ok ⟨i.toNat, h⟩
            else .error (.decode (.literalTooLarge literal))

/-! ### JSON -/

/-- The number of a JSON value: of a text, of a number token by its text, or of a rounded number
that is a safe integer. -/
def ofValue (v : Value) : Except Failure U64 :=
  match v with
  | .text t => (ofText t).mapError .decode
  | .double x =>
      if x.isSafeInteger then (ofInt x.truncate).mapError .decode
      else .error (.decode (.roundedNumber x))
  | v =>
      if v.passesForToken then ofTokenText (v.get Value.valueKey)
      else .error (.decode (.unexpected .u64 v.kind))

/-- The text begins and ends with a quote, and these are two. -/
def isQuoted (raw : Text) : Bool :=
  2 ≤ raw.length && raw.head? == some Json.quote && raw.getLast? == some Json.quote

/-- The number of a raw JSON token: the content of a quoted text is the literal, and any other raw
text is the literal itself. -/
def decode (raw : Text) : Except DecodeError U64 :=
  if isQuoted raw then
    match readJson raw .malformedNumber "u64" with
    | .error e => .error e
    | .ok (.text t) => ofText t
    | .ok _ => .error (.invalidLiteral raw)
  else ofText raw

/-- Whether a raw JSON token can be decoded. -/
def validity (raw : Text) : Except Failure Validity :=
  Validity.ofExcept ((decode raw).mapError .decode)

/-- The codec. -/
def codec : Codec U64 where
  decode raw := .ofExcept ((decode raw).mapError .decode)
  encode := encode

end U64

end WireCodec
