import WireCodec.Decoding

/-
**Sequences of bytes on the wire.**

Bytes arrive as a JSON text, in base sixteen or in base sixty-four; they are always written in base
sixteen with the mark `0x`.  Three rules decide, in this order, what a text means:

* with the mark in front it is base sixteen;
* with padding at its end it is base sixty-four;
* otherwise it is base sixteen if it can be read so, and base sixty-four if not.

In base sixty-four, line breaks are skipped and bits after the last byte are ignored.

Main definitions:

* `Blob`: the bytes;
* `Blob.text`, `Blob.toDoc`: their text and their canonical document;
* `Blob.equals`: the comparison of two;
* `Blob.ofBase64`, `Blob.ofText`, `Blob.ofValue`, `Blob.decode`: the readers;
* `Blob.codec`: the codec.
-/

set_option relaxedAutoImplicit false
set_option autoImplicit false

namespace WireCodec

open Json (Value Doc)

/-- A sequence of bytes. -/
@[ext] structure Blob where
  bytes : Bytes
  deriving DecidableEq, Repr

namespace Blob

/-- The bytes in base sixteen, with the mark. -/
def text (b : Blob) : Text := (Hex.mk b.bytes).text

/-- The canonical document: the bytes as a text. -/
def toDoc (b : Blob) : Doc := .text b.text

/-- The canonical JSON text. -/
def encode (b : Blob) : Text := b.toDoc.print

/-- Compared byte by byte. -/
def equals (a b : Blob) : Bool := a.bytes.same b.bytes

/-! ### Texts -/

/-- A failure to read a text as bytes. -/
def malformed {α : Type} (t : Text) (fault : BytesFault) : Except Failure α :=
  .error (.decode (.malformedBytes t fault))

/-- The bytes of a text in base sixteen. -/
def ofBase16 (t : Text) : Except Failure Blob :=
  match Hex.ofText t with
  | .ok h => .ok ⟨h.bytes⟩
  | .error e => malformed t (.hex e)

/-- A carriage return or a line feed. -/
def isLineBreak (u : CodeUnit) : Bool := u == 0x0D || u == 0x0A

/-- A text without its line breaks. -/
def withoutBreaks (t : Text) : Text := t.filter fun u => !isLineBreak u

/-- The bytes of a text in base sixty-four. -/
def ofBase64 (t : Text) : Except Failure Blob :=
  let letters := withoutBreaks t
  if letters = [] then malformed t .noLetters
  else
    match Base64.decode (Base64.clearSpareBits letters) with
    | .ok bytes => .ok ⟨bytes⟩
    | .error fault => malformed t (.base64 fault)

/-- The bytes of a text in either base. -/
def ofText (t : Text) : Logged Blob :=
  if (Text.after? Base16.mark t).isSome then .ofExcept (ofBase16 t)
  else if t.getLast? = some Base64.pad then .ofExcept (ofBase64 t)
  else
    match Hex.ofText t with
    | .ok h => .ofExcept (.ok ⟨h.bytes⟩)
    | .error e => (Logged.record ⟨t.length, e⟩).bind fun _ => .ofExcept (ofBase64 t)

/-! ### JSON -/

/-- The bytes of a JSON value, which must be a text. -/
def ofValue (v : Value) : Logged Blob :=
  match v with
  | .text t => ofText t
  | v => .ofExcept (.error (.decode (.unexpected .bytes v.kind)))

/-- The bytes of a raw JSON text. -/
def decode (raw : Text) : Logged Blob :=
  match readJson raw .malformedBytes "bytes" with
  | .error e => .ofExcept (.error (.decode e))
  | .ok v => ofValue v

/-- Whether a text can be read as bytes. -/
def validity (t : Text) : Logged Validity :=
  ⟨Validity.ofExcept (ofText t).outcome, (ofText t).log⟩

/-- The codec. -/
def codec : Codec Blob where
  decode := decode
  encode := encode

end Blob

end WireCodec
