import WireCodec.Decoding

/-
**Hashes on the wire.**

A hash is expected to be 64 digits in base sixteen, but it is passed through as the text that it
is: nothing checks its length or its units.

Main definitions:

* `Hash`, `Hash.equals`: the text, and the comparison of two;
* `Hash.toDoc`, `Hash.ofValue`, `Hash.decode`: its document and the readers;
* `Hash.codec`: the codec.
-/

set_option relaxedAutoImplicit false
set_option autoImplicit false

namespace WireCodec

open Json (Value Doc)

/-- A hash, as its text. -/
@[ext] structure Hash where
  text : Text
  deriving DecidableEq, Repr

namespace Hash

/-- The canonical document. -/
def toDoc (h : Hash) : Doc := .text h.text

/-- The canonical JSON text. -/
def encode (h : Hash) : Text := h.toDoc.print

/-- Compared unit by unit. -/
def equals (a b : Hash) : Bool := a.text == b.text

/-- The hash of a JSON value, which must be a text. -/
def ofValue (v : Value) : Except Failure Hash :=
  match v with
  | .text t => .ok ⟨t⟩
  | v => .error (.decode (.unexpected .hash v.kind))

/-- The hash of a raw JSON text. -/
def decode (raw : Text) : Except Failure Hash :=
  match readJson raw .malformedObject "hash" with
  | .error e => .error (.decode e)
  | .ok v => ofValue v

/-- The codec. -/
def codec : Codec Hash where
  decode raw := .ofExcept (decode raw)
  encode := encode

end Hash

end WireCodec
