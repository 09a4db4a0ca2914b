import WireCodec.Log

/-
**What all decoders share.**

Main definitions:

* `readJson`: the value of a raw JSON text, as the decoders read it;
* `requiredField`, `readField`, `Logged.readField`: a field of an object that must be there;
* `Validity`, `Validity.ofExcept`, `Hex.validity`: an outcome as an answer instead of a failure;
* `Codec`: a decoder together with its encoder.
-/

set_option relaxedAutoImplicit false
set_option autoImplicit false

namespace WireCodec

open Json (Value)

/-! ### JSON texts -/

/-- The value of a raw JSON text, number tokens kept. -/
def readJson (raw : Text) (reason : DecodeReason) (typeName : Text) : Except DecodeError Value :=
  (Value.read .lossless raw).mapError (.invalidJson reason typeName raw)

/-! ### Fields -/

/-- The value of a field that must be there and not null. -/
def requiredField (object : Value) (field : Text) : Except Failure Value :=
  match object.member field with
  | .error m => .error (.misuse m)
  | .ok .missing => .error (.decode (.missingField field))
  | .ok .null => .error (.decode (.missingField field))
  | .ok v => .ok v

/-- A required field, decoded.  The failures of its decoder name the field. -/
def readField {α : Type} (object : Value) (field : Text) (decode : Value → Except Failure α) :
    Except Failure α :=
  match requiredField object field with
  | .error e => .error e
  | .ok v => (decode v).mapError (Failure.inField field)

/-- A required field, decoded by a decoder that writes a log. -/
def Logged.readField {α : Type} (object : Value) (field : Text) (decode : Value → Logged α) :
    Logged α :=
  match requiredField object field with
  | .error e => .ofExcept (.error e)
  | .ok v => (decode v).mapFailure (Failure.inField field)

/-! ### Answers -/

/-- Whether something can be read, and if not, why. -/
inductive Validity where
  | valid
  | invalid (reason : String) (message : Text)
  deriving DecidableEq, Repr

/-- An outcome as an answer.  What is no error of a decoder or a reader stays a failure. -/
def Validity.ofExcept {α : Type} : Except Failure α → Except Failure Validity
  | .ok _ => .ok .valid
  | .error (.decode e) => .ok (.invalid e.reason.name e.message)
  | .error (.unreadable e) => .ok (.invalid e.reason e.message)
  | .error (.misuse m) => .error (.misuse m)
  | .error .grammar => .error .grammar

/-- Whether a text is bytes in base sixteen. -/
def Hex.validity (t : Text) : Except Failure Validity :=
  Validity.ofExcept ((Hex.ofText t).mapError fun e => .unreadable (.hex e))

/-! ### Codecs -/

/-- A decoder from raw JSON text and the encoder to canonical JSON text. -/
structure Codec (α : Type) where
  decode : Text → Logged α
  encode : α → Text

/-- What the encoder writes for a value decodes to the value. -/
def Codec.roundTrips {α : Type} [DecidableEq α] (c : Codec α) (a : α) : Bool :=
  match (c.decode (c.encode a)).outcome with
  | .ok b => decide (b = a)
  | .error _ => false

end WireCodec
