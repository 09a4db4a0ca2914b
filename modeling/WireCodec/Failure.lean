import WireCodec.Address
import WireCodec.Base64
import WireCodec.Json.Reading
import WireCodec.Json.Conversion

/-
**Why a wire value cannot be decoded.**

A failure is kept as its cause.  Its code, its field, its wording and the failure underneath are
functions of the cause, put together in a `Report`.

Main definitions:

* `DecodeError`: a decoder refuses a value; `DecodeReason` is its code;
* `TextError`: a reader of base sixteen or of addresses refuses a text;
* `Failure`: either of them, a value used in a way that it does not support, or broken JSON;
* `Failure.inField`: a failure as seen from the object whose field failed;
* `Failure.report`: what a failure says.
-/

set_option relaxedAutoImplicit false
set_option autoImplicit false

namespace WireCodec

/-! ### Causes -/

/-- The codes of decoding errors. -/
inductive DecodeReason where
  /-- Not a non-negative integer in base ten, or too large. -/
  | malformedNumber
  /-- Neither base sixteen nor base sixty-four. -/
  | malformedBytes
  /-- A field is missing, or a value has the wrong shape. -/
  | malformedObject
  deriving DecidableEq, Repr

/-- The name of a code. -/
def DecodeReason.name : DecodeReason → String
  | .malformedNumber => "malformed_number"
  | .malformedBytes => "malformed_bytes"
  | .malformedObject => "malformed_object"

/-- The types of values on the wire. -/
inductive WireType where
  | u64
  | bytes
  | hash
  | address
  | guid
  deriving DecidableEq, Repr

/-- The code of a value of the wrong shape. -/
def WireType.reason : WireType → DecodeReason
  | .u64 => .malformedNumber
  | .bytes => .malformedBytes
  | .hash | .address | .guid => .malformedObject

/-- What is expected in the place of a value. -/
def WireType.expectation : WireType → Text
  | .u64 => "a JSON string or number for u64"
  | .bytes => "a JSON string for bytes"
  | .hash => "a JSON string for a hash"
  | .address => "a JSON string for an account address"
  | .guid => "a JSON object for an event GUID"

/-- Why a text is not a sequence of bytes. -/
inductive BytesFault where
  /-- The text has to be base sixteen, and is not. -/
  | hex (e : Hex.Error)
  /-- The text has to be base sixty-four, and has no letters. -/
  | noLetters
  /-- The text has to be base sixty-four, and is not. -/
  | base64 (fault : Base64.Fault)
  deriving DecidableEq, Repr

/-- A reader of base sixteen or of addresses refuses a text. -/
inductive TextError where
  | hex (e : Hex.Error)
  | address (e : Address.Error)
  deriving DecidableEq, Repr

/-- A decoder refuses a value. -/
inductive DecodeError where
  /-- The text is not a JSON document. -/
  | invalidJson (reason : DecodeReason) (typeName raw : Text) (fault : Json.Fault)
  /-- A literal has other units than digits. -/
  | invalidLiteral (literal : Text)
  /-- A literal denotes a number past the greatest. -/
  | literalTooLarge (literal : Text)
  /-- A number in double precision is not a safe integer. -/
  | notSafeInteger (x : Binary64)
  /-- An integer is negative or past the greatest. -/
  | outOfRange (i : Int)
  /-- A rounded JSON number is not a safe integer. -/
  | roundedNumber (x : Binary64)
  /-- A value has the wrong shape. -/
  | unexpected (wanted : WireType) (got : Json.Kind)
  /-- A text is not a sequence of bytes. -/
  | malformedBytes (t : Text) (fault : BytesFault)
  /-- A required field is missing or null. -/
  | missingField (field : Text)
  /-- The decoder of a field refuses its value. -/
  | invalidField (field : Text) (cause : DecodeError)
  /-- The reader of a field's text refuses it. -/
  | unreadableField (field : Text) (cause : TextError)
  deriving DecidableEq, Repr

/-- Why something fails. -/
inductive Failure where
  | decode (e : DecodeError)
  | unreadable (e : TextError)
  | misuse (m : Json.Misuse)
  /-- A text breaks the grammar of JSON, outside any decoder. -/
  | grammar
  deriving DecidableEq, Repr

/-! ### Codes, fields and wording -/

/-- The greatest unsigned integer of 64 bits. -/
def maxU64 : Nat := 0xFFFFFFFFFFFFFFFF

/-- The code of an error. -/
def TextError.reason : TextError → String
  | .hex e => e.reason
  | .address e => e.reason

/-- The wording of an error. -/
def TextError.message : TextError → Text
  | .hex e => e.message
  | .address e => e.message

/-- The code of an error.  A field passes on the code of its decoder. -/
def DecodeError.reason : DecodeError → DecodeReason
  | .invalidJson reason _ _ _ => reason
  | .invalidLiteral _ | .literalTooLarge _ | .notSafeInteger _ | .outOfRange _
  | .roundedNumber _ => .malformedNumber
  | .unexpected wanted _ => wanted.reason
  | .malformedBytes _ _ => .malformedBytes
  | .missingField _ => .malformedObject
  | .invalidField _ cause => cause.reason
  | .unreadableField _ _ => .malformedObject

/-- The field that failed, if the error comes from a field. -/
def DecodeError.field : DecodeError → Option Text
  | .missingField field => some field
  | .invalidField field _ => some field
  | .unreadableField field _ => some field
  | _ => none

/-- The wording of an error in a field. -/
def fieldMessage (field message : Text) : Text :=
  Text.concat ["Invalid field \"", field, "\": ", message]

/-- The wording of an error. -/
def DecodeError.message : DecodeError → Text
  | .invalidJson _ typeName raw _ => Text.concat ["Invalid JSON for ", typeName, ": ", raw]
  | .invalidLiteral literal => Text.concat ["Invalid u64 literal \"", literal, "\""]
  | .literalTooLarge literal =>
      Text.concat ["u64 literal \"", literal, "\" exceeds ", Decimal.text maxU64]
  | .notSafeInteger x =>
      Text.concat [x.text, " is not an integer within the safe number range"]
  | .outOfRange i => Text.concat [Decimal.intText i, " is outside the u64 range"]
  | .roundedNumber x => Text.concat ["JSON number ", x.text,
      " is not a safe integer, decode its raw token with fromJson instead"]
  | .unexpected wanted got =>
      Text.concat ["Expected ", wanted.expectation, ", got ", got.name]
  | .malformedBytes t _ => Text.concat ["\"", t, "\" is neither valid hex nor valid base64"]
  | .missingField field => Text.concat ["Missing required field \"", field, "\""]
  | .invalidField field cause => fieldMessage field cause.message
  | .unreadableField field cause => fieldMessage field cause.message

/-- The wording of a use that a value does not support.  A text that is too long has none. -/
def misuseMessage : Json.Misuse → Option Text
  | .memberOfNull key =>
      some (Text.concat ["Cannot read properties of null (reading '", key, "')"])
  | .memberOfMissing key =>
      some (Text.concat ["Cannot read properties of undefined (reading '", key, "')"])
  | .notConvertible => some "Cannot convert object to primitive value"
  | .notTokenText => some "t.replace is not a function"
  | .integerForDouble => some "Cannot convert a BigInt value to a number"
  | .lengthTooLarge => some "Invalid array length"
  | .textTooLong => none
  | .overflow token result =>
      some (Text.concat ["Cannot safely convert to number: the value '", token,
        "' would overflow and become ", result.text])
  | .underflow token result =>
      some (Text.concat ["Cannot safely convert to number: the value '", token,
        "' would underflow and become ", result.text])

/-! ### Fields -/

/-- A failure as seen from the object whose field failed.  What is no error of a decoder or a
reader passes through. -/
def Failure.inField (field : Text) : Failure → Failure
  | .decode e => .decode (.invalidField field e)
  | .unreadable e => .decode (.unreadableField field e)
  | .misuse m => .misuse m
  | .grammar => .grammar

/-! ### Reports -/

/-- The kinds of failures that a report tells apart. -/
inductive Report.Kind where
  /-- An error of a decoder. -/
  | decoder
  /-- An error of a reader. -/
  | reader
  /-- An error without a code. -/
  | plain
  /-- A value used in a way that its kind does not support. -/
  | misuse
  /-- A text that breaks the grammar of JSON. -/
  | grammar
  /-- A text past a limit. -/
  | limit
  deriving DecidableEq, Repr

/-- What a failure says: its kind, its code, its field, its wording and the failure underneath. -/
inductive Report where
  | mk (kind : Report.Kind) (reason : Option String) (field message : Option Text)
      (cause : Option Report)
  deriving Repr

namespace Report

/-- An error without a code. -/
def ofMessage (message : Text) : Report := .mk .plain none none (some message) none

/-- What a fault in a JSON text says.  A broken grammar has no wording. -/
def ofFault : Json.Fault → Report
  | .malformed => .mk .grammar none none none none
  | .noWholePart token =>
      ofMessage (Text.concat ["Invalid number (value: \"", token, "\")"])

/-- What an error of the reader of base sixteen says. -/
def ofHexError (e : Hex.Error) : Report :=
  .mk .reader (some e.reason) none (some e.message)
    (match e with
      | .notDigits fault => some (ofMessage fault.message)
      | _ => none)

/-- What an error of the reader of addresses says. -/
def ofAddressError (e : Address.Error) : Report :=
  .mk .reader (some e.reason) none (some e.message)
    (match e with
      | .notDigits fault => some (ofMessage fault.message)
      | _ => none)

/-- What an error of a reader says. -/
def ofTextError : TextError → Report
  | .hex e => ofHexError e
  | .address e => ofAddressError e

/-- What a fault in the text of bytes says. -/
def ofBytesFault : BytesFault → Report
  | .hex e => ofHexError e
  | .noLetters => ofMessage "empty string"
  | .base64 fault => ofMessage fault.message

/-- A report of a decoding error over the failure underneath. -/
def decoding (e : DecodeError) (cause : Option Report) : Report :=
  .mk .decoder (some e.reason.name) e.field (some e.message) cause

/-- What an error of a decoder says. -/
def ofDecodeError : DecodeError → Report
  | .invalidJson reason typeName raw fault =>
      decoding (.invalidJson reason typeName raw fault) (some (ofFault fault))
  | .malformedBytes t fault => decoding (.malformedBytes t fault) (some (ofBytesFault fault))
  | .invalidField field cause =>
      decoding (.invalidField field cause) (some (ofDecodeError cause))
  | .unreadableField field cause =>
      decoding (.unreadableField field cause) (some (ofTextError cause))
  | e => decoding e none

/-- The kind of a use that a value does not support. -/
def kindOfMisuse : Json.Misuse → Kind
  | .overflow .. | .underflow .. => .plain
  | .textTooLong => .limit
  | _ => .misuse

/-- What a use that a value does not support says. -/
def ofMisuse (m : Json.Misuse) : Report :=
  .mk (kindOfMisuse m) none none (misuseMessage m) none

end Report

/-- What a failure says. -/
def Failure.report : Failure → Report
  | .decode e => Report.ofDecodeError e
  | .unreadable e => Report.ofTextError e
  | .misuse m => Report.ofMisuse m
  | .grammar => Report.ofFault .malformed

end WireCodec
