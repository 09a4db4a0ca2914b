import WireCodec.Address.Json
import WireCodec.U64

/-
**Identifiers of events.**

The identifier of an event is the address of its creator and the creation number of the event
handle.  On the wire it is an object with two fields; other fields are ignored.

Main definitions:

* `EventGuid`: an identifier;
* `EventGuid.toDoc`, `EventGuid.text`: its canonical document and JSON text;
* `EventGuid.equals`: the comparison of two identifiers;
* `EventGuid.ofNumber`, `EventGuid.ofValue`, `EventGuid.decode`: from parts, from a JSON value and
  from raw JSON text;
* `EventGuid.codec`: the codec.
-/

set_option relaxedAutoImplicit false
set_option autoImplicit false

namespace WireCodec

open Json (Value Doc)

/-- The identifier of an event. -/
@[ext] structure EventGuid where
  creationNumber : U64
  address : Address
  deriving DecidableEq, Repr

namespace EventGuid

/-- The name of the first field. -/
def numberField : Text := "creation_number"
/-- The name of the second field. -/
def addressField : Text := "account_address"

/-- The canonical document: the two fields in their order, the number as a text. -/
def toDoc (g : EventGuid) : Doc :=
  .object [(numberField, g.creationNumber.toDoc), (addressField, g.address.toDoc)]

/-- The canonical JSON text. -/
def text (g : EventGuid) : Text := g.toDoc.print

/-- Compared part by part. -/
def equals (a b : EventGuid) : Bool :=
  a.creationNumber.equals b.creationNumber && a.address.equals b.address

/-- The identifier with the given parts. -/
def ofNumber (number : Number) (address : Address) : Except DecodeError EventGuid :=
  (U64.ofNumber number).map fun n => ⟨n, address⟩

/-- The identifier of a JSON value, which must be an object with both fields. -/
def ofValue (v : Value) : Except Failure EventGuid :=
  if v.isObject then
    match readField v numberField U64.ofValue with
    | .error e => .error e
    | .ok number =>
        match readField v addressField Address.ofValue with
        | .error e => .error e
        | .ok address => .ok ⟨number, address⟩
  else .error (.decode (.unexpected .guid v.kind))

/-- The identifier of a raw JSON text. -/
def decode (raw : Text) : Except Failure EventGuid :=
  match readJson raw .malformedObject "event GUID" with
  | .error e => .error (.decode e)
  | .ok v => ofValue v

/-- Whether a raw JSON text can be decoded. -/
def validity (raw : Text) : Except Failure Validity := Validity.ofExcept (decode raw)

/-- The codec. -/
def codec : Codec EventGuid where
  decode raw := .ofExcept (decode raw)
  encode := text

end EventGuid

end WireCodec
