import WireCodec.EventGuid
import WireCodec.Hash
import WireCodec.Blob

/-
**Typed values and the ways to make them.**

Main definitions:

* `Item`: a value of one of the six types;
* `Item.text`, `Item.toDoc`, `Item.equals?`: what all types share;
* `Source`, `Recipe`, `Recipe.make`: the ways to make an item;
* `WireType.decode`: the decoder of a type for JSON values.
-/

set_option relaxedAutoImplicit false
set_option autoImplicit false

namespace WireCodec

open Json (Value Doc Numeral)

/-! ### Items -/

/-- A value of one of the six types. -/
inductive Item where
  | u64 (u : U64)
  | hex (h : Hex)
  | bytes (b : Blob)
  | address (a : Address)
  | hash (h : Hash)
  | guid (g : EventGuid)
  deriving DecidableEq, Repr

/-- Bytes as a document: their numbers under their places.  Only bytes without a wire form of
their own are written so. -/
def Hex.toDoc (h : Hex) : Doc :=
  .object [("data", .object (h.bytes.zipIdx.map fun (b, place) =>
    (Decimal.text place, .number (Numeral.ofNat b.toNat))))]

namespace Item

/-- The canonical text. -/
def text : Item → Text
  | .u64 u => u.text
  | .hex h => h.text
  | .bytes b => b.text
  | .address a => a.text
  | .hash h => h.text
  | .guid g => g.text

/-- The canonical document. -/
def toDoc : Item → Doc
  | .u64 u => u.toDoc
  | .hex h => h.toDoc
  | .bytes b => b.toDoc
  | .address a => a.toDoc
  | .hash h => h.toDoc
  | .guid g => g.toDoc

/-- The canonical JSON text. -/
def encode (i : Item) : Text := i.toDoc.print

/-- Whether two items of one type are equal. -/
def equals? : Item → Item → Option Bool
  | .u64 a, .u64 b => some (a.equals b)
  | .hex a, .hex b => some (a.equals b)
  | .bytes a, .bytes b => some (a.equals b)
  | .address a, .address b => some (a.equals b)
  | .hash a, .hash b => some (a.equals b)
  | .guid a, .guid b => some (a.equals b)
  | _, _ => none

/-- The bytes of an item that is made of bytes. -/
def bytes? : Item → Option Bytes
  | .hex h => some h.bytes
  | .bytes b => some b.bytes
  | .address a => some a.bytes
  | _ => none

end Item

/-! ### Making items -/

/-- Where a JSON value comes from. -/
inductive Source where
  /-- A text in the lossless reading. -/
  | lossless (t : Text)
  /-- A text in the plain reading. -/
  | plain (t : Text)
  /-- An integer of any size. -/
  | integer (i : Int)
  /-- Nowhere. -/
  | missing
  deriving DecidableEq, Repr

/-- The value that comes from a source. -/
def Source.value : Source → Except Failure Value
  | .lossless t => (readJson t .malformedObject "value").mapError .decode
  | .plain t => (Value.read .plain t).mapError fun _ => .grammar
  | .integer i => .ok (.integer i)
  | .missing => .ok .missing

/-- The decoder of a type for JSON values. -/
def WireType.decode (type : WireType) (v : Value) : Logged Item :=
  match type with
  | .u64 => .ofExcept ((U64.ofValue v).map .u64)
  | .bytes => .bytes <$> Blob.ofValue v
  | .hash => .ofExcept ((Hash.ofValue v).map .hash)
  | .address => .ofExcept ((Address.ofValue v).map .address)
  | .guid => .ofExcept ((EventGuid.ofValue v).map .guid)

/-- The ways to make an item. -/
inductive Recipe where
  | u64Json (raw : Text)
  | u64Text (t : Text)
  | u64Number (n : Number)
  | hexText (t : Text)
  | hexInput (input : BytesOrText)
  | hexData (bytes : Bytes)
  | bytesJson (raw : Text)
  | bytesText (t : Text)
  | bytesData (bytes : Bytes)
  | addressStrict (t : Text)
  | addressRelaxed (t : Text)
  | addressInput (input : BytesOrText)
  | addressData (bytes : Bytes)
  | hashJson (raw : Text)
  | hashText (t : Text)
  | guidJson (raw : Text)
  | guidParts (n : Number) (address : Text)
  | ofValue (type : WireType) (source : Source)
  deriving DecidableEq, Repr

/-- The item that an outcome of the reader of base sixteen gives. -/
def Item.ofHex (x : Except Hex.Error Hex) : Logged Item :=
  .ofExcept ((x.mapError fun e => .unreadable (.hex e)).map .hex)

/-- The item that an outcome of the reader of addresses gives. -/
def Item.ofAddress (x : Except Address.Error Address) : Logged Item :=
  .ofExcept ((x.mapError fun e => .unreadable (.address e)).map .address)

/-- The item that a recipe makes. -/
def Recipe.make : Recipe → Logged Item
  | .u64Json raw => .u64 <$> U64.codec.decode raw
  | .u64Text t => .ofExcept (((U64.ofText t).mapError .decode).map .u64)
  | .u64Number n => .ofExcept (((U64.ofNumber n).mapError .decode).map .u64)
  | .hexText t => Item.ofHex (Hex.ofText t)
  | .hexInput input => Item.ofHex (Hex.ofInput input)
  | .hexData bytes => .ofExcept (.ok (.hex ⟨bytes⟩))
  | .bytesJson raw => .bytes <$> Blob.codec.decode raw
  | .bytesText t => .bytes <$> Blob.ofText t
  | .bytesData bytes => .ofExcept (.ok (.bytes ⟨bytes⟩))
  | .addressStrict t => Item.ofAddress (Address.strict t)
  | .addressRelaxed t => Item.ofAddress (Address.relaxed t)
  | .addressInput input => Item.ofAddress (Address.ofInput input)
  | .addressData bytes => Item.ofAddress (Address.ofBytes bytes)
  | .hashJson raw => .hash <$> Hash.codec.decode raw
  | .hashText t => .ofExcept (.ok (.hash ⟨t⟩))
  | .guidJson raw => .guid <$> EventGuid.codec.decode raw
  | .guidParts n address =>
      match Address.relaxed address with
      | .error e => .ofExcept (.error (.unreadable (.address e)))
      | .ok a => .ofExcept (((EventGuid.ofNumber n a).mapError .decode).map .guid)
  | .ofValue type source =>
      match source.value with
      | .error e => .ofExcept (.error e)
      | .ok v => type.decode v

end WireCodec
