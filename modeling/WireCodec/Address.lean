import WireCodec.Hex

/-
**Account addresses.**

An address is 32 bytes.  Its long text is the mark `0x` and 64 digits.  The sixteen addresses whose
number is below 16 are special: they are written in short form, with a single digit.

Main definitions:

* `Address`, `Address.equals`: 32 bytes, and the comparison of two addresses;
* `Address.isSpecial`: the address is written in short form;
* `Address.text`, `Address.bareText`, `Address.longText`: its texts;
* `Address.ofBytes`, `Address.relaxed`, `Address.strict`: readers, which fail with an
  `Address.Error`.
-/

set_option relaxedAutoImplicit false
set_option autoImplicit false

namespace WireCodec

/-- An account address. -/
@[ext] structure Address where
  bytes : Bytes
  length_bytes : bytes.length = 32
  deriving DecidableEq, Repr

namespace Address

/-- How many digits the long text of an address has. -/
def longLength : Nat := 64

/-- Compared byte by byte. -/
def equals (a b : Address) : Bool := a.bytes.same b.bytes

/-! ### Writing -/

/-- Every byte but the last is zero, and the last is below 16. -/
def isSpecial (a : Address) : Bool :=
  a.bytes.dropLast.all (· == 0) && a.bytes.getLast?.any fun b => decide (b.toNat < 16)

/-- The short text of a special address and the long text of any other, without the mark. -/
def bareText (a : Address) : Text :=
  let digits := Base16.encode a.bytes
  if a.isSpecial then digits.drop (digits.length - 1) else digits

/-- The short text of a special address and the long text of any other. -/
def text (a : Address) : Text := Base16.mark ++ a.bareText

/-- The long text. -/
def longText (a : Address) : Text := Base16.mark ++ Base16.encode a.bytes

/-! ### Reading -/

/-- Why something is not an address. -/
inductive Error where
  /-- The number of bytes is not 32. -/
  | wrongSize
  /-- A unit after the mark is not a digit. -/
  | notDigits (fault : Base16.Fault)
  /-- There are no digits. -/
  | tooShort
  /-- There are more than 64 digits. -/
  | tooLong
  /-- The mark is missing. -/
  | markRequired
  /-- The address is not special and not in long form. -/
  | longFormRequired
  /-- The address is special, and neither in short nor in long form. -/
  | paddedShortForm
  deriving DecidableEq, Repr

/-- The code of an error. -/
def Error.reason : Error → String
  | .wrongSize => "incorrect_number_of_bytes"
  | .notDigits _ => "invalid_hex_chars"
  | .tooShort => "too_short"
  | .tooLong => "too_long"
  | .markRequired => "leading_zero_x_required"
  | .longFormRequired => "long_form_required_unless_special"
  | .paddedShortForm => "invalid_padding_zeroes"

/-- The wording of an error. -/
def Error.message : Error → Text
  | .wrongSize => "AccountAddress data should be exactly 32 bytes long"
  | .notDigits fault => Text.concat ["Hex characters are invalid: ", fault.message]
  | .tooShort =>
      "Hex string is too short, must be 1 to 64 chars long, excluding the leading 0x."
  | .tooLong =>
      "Hex string is too long, must be 1 to 64 chars long, excluding the leading 0x."
  | .markRequired => "Hex string must start with a leading 0x."
  | .longFormRequired =>
      "The given hex string is not a special address, it must be represented as 0x + 64 chars."
  | .paddedShortForm => Text.concat
      ["The given hex string is a special address not in LONG form, ",
        "it must be 0x0 to 0xf without padding zeroes."]

/-- The address with the given bytes. -/
def ofBytes (bytes : Bytes) : Except Error Address :=
  if h : bytes.length = 32 then .ok ⟨bytes, h⟩ else .error .wrongSize

/-- Digits with zeros in front, up to the length of the long text. -/
def padded (digits : Text) : Text :=
  List.replicate (longLength - digits.length) (Text.unit '0') ++ digits

/-- The address written by 1 to 64 digits, with or without the mark. -/
def relaxed (t : Text) : Except Error Address :=
  let digits := Base16.unmarked t
  if digits.length = 0 then .error .tooShort
  else if longLength < digits.length then .error .tooLong
  else
    match Base16.decode (padded digits) with
    | .ok bytes => ofBytes bytes
    | .error fault => .error (.notDigits fault)

/-- The address written in long form with its mark, or in short form if it is special. -/
def strict (t : Text) : Except Error Address :=
  match Text.after? Base16.mark t with
  | none => .error .markRequired
  | some _ =>
      match relaxed t with
      | .error e => .error e
      | .ok a =>
          if t.length = longLength + 2 then .ok a
          else if !a.isSpecial then .error .longFormRequired
          else if t.length ≠ 3 then .error .paddedShortForm
          else .ok a

/-- The address that is given, a text being read in the relaxed way. -/
def ofInput : BytesOrText → Except Error Address
  | .bytes bytes => ofBytes bytes
  | .text t => relaxed t

end Address

end WireCodec
