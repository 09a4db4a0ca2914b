import WireCodec.Base16

/-
**Bytes written in base sixteen.**

A text of digit pairs may carry the mark `0x`.  The mark alone means no bytes; a text without any
unit is refused.

Main definitions:

* `Hex`: the bytes;
* `Hex.text`, `Hex.bareText`: the text with and without the mark, in small letters;
* `Hex.equals`: the comparison of two;
* `Hex.ofText`: the bytes of a text, or a `Hex.Error`.
-/

set_option relaxedAutoImplicit false
set_option autoImplicit false

namespace WireCodec

/-- Bytes that are written in base sixteen. -/
@[ext] structure Hex where
  bytes : Bytes
  deriving DecidableEq, Repr

namespace Hex

/-- The text without the mark. -/
def bareText (h : Hex) : Text := Base16.encode h.bytes

/-- The text with the mark. -/
def text (h : Hex) : Text := Base16.mark ++ h.bareText

/-- Compared byte by byte. -/
def equals (a b : Hex) : Bool := a.bytes.same b.bytes

/-- Why a text is not bytes in base sixteen. -/
inductive Error where
  /-- The text is empty. -/
  | tooShort
  /-- The number of units after the mark is odd. -/
  | oddLength
  /-- A unit after the mark is not a digit. -/
  | notDigits (fault : Base16.Fault)
  deriving DecidableEq, Repr

/-- The code of an error. -/
def Error.reason : Error → String
  | .tooShort => "too_short"
  | .oddLength => "invalid_length"
  | .notDigits _ => "invalid_hex_chars"

/-- The wording of an error. -/
def Error.message : Error → Text
  | .tooShort => "Hex string is empty, expected at least 0x or one byte."
  | .oddLength => "Hex string must be an even number of hex characters."
  | .notDigits fault =>
      Text.concat ["Hex string contains invalid hex characters: ", fault.message]

/-- The bytes of a text of digit pairs, with or without the mark. -/
def ofText (t : Text) : Except Error Hex :=
  if t = [] then .error .tooShort
  else
    let digits := Base16.unmarked t
    if digits.length % 2 ≠ 0 then .error .oddLength
    else
      match Base16.decode digits with
      | .ok bytes => .ok ⟨bytes⟩
      | .error fault => .error (.notDigits fault)

end Hex

/-- What bytes may be given as: themselves or a text. -/
inductive BytesOrText where
  | bytes (bytes : Bytes)
  | text (t : Text)
  deriving DecidableEq, Repr

/-- The bytes that are given, a text being read. -/
def Hex.ofInput : BytesOrText → Except Hex.Error Hex
  | .bytes bytes => .ok ⟨bytes⟩
  | .text t => Hex.ofText t

end WireCodec
