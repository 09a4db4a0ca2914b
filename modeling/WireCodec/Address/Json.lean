import WireCodec.Decoding

/-
**Account addresses on the wire.**

An address is a JSON text, which is read in the relaxed way and written as `Address.text`.

Main definitions:

* `Address.toDoc`, `Address.encode`: the canonical document and JSON text;
* `Address.ofValue`: the address of a JSON value;
* `Address.validity`: whether a text is an address.
-/

set_option relaxedAutoImplicit false
set_option autoImplicit false

namespace WireCodec

open Json (Value Doc)

namespace Address

/-- The canonical document: the text that is short for special addresses. -/
def toDoc (a : Address) : Doc := .text a.text

/-- The canonical JSON text. -/
def encode (a : Address) : Text := a.toDoc.print

/-- The address of a JSON value, which must be a text; the text is read in the relaxed way. -/
def ofValue (v : Value) : Except Failure Address :=
  match v with
  | .text t => (relaxed t).mapError fun e => .unreadable (.address e)
  | v => .error (.decode (.unexpected .address v.kind))

/-- Whether a text is an address, in the strict or in the relaxed way. -/
def validity (isRelaxed : Bool) (t : Text) : Except Failure Validity :=
  Validity.ofExcept
    ((if isRelaxed then relaxed t else strict t).mapError fun e => .unreadable (.address e))

end Address

end WireCodec
