import WireCodec.Base16

/-
**Base sixty-four with the standard alphabet and padding.**

Four letters stand for three bytes; a last group of two or three letters is filled up with `=`.
`Base64.decode` is strict: it checks, in this order, that the length is a multiple of four, that
there is no padding beyond a group, that every letter is in the alphabet, that no letter is left
alone, and that the bits after the last byte are zero.  `Base64.clearSpareBits` sets those bits
to zero beforehand, for readers that do not mind them.

Main definitions:

* `Sextet`, `Base64.letter`, `Base64.sextet?`: six bits and the letter that writes them;
* `Base64.encode`: the padded text of a sequence of bytes;
* `Base64.decode`: the bytes of a padded text, or a `Base64.Fault`;
* `Base64.clearSpareBits`: a text without set bits after its last byte.
-/

set_option relaxedAutoImplicit false
set_option autoImplicit false

namespace WireCodec

/-- Six bits, as a number. -/
abbrev Sextet := Fin 64

namespace Base64

/-! ### The alphabet -/

/-- The letter of a sextet: the capitals, the small letters, the digits, `+` and `/`. -/
def letter (s : Sextet) : CodeUnit :=
  if s.val < 26 then UInt16.ofNat (65 + s.val)
  else if s.val < 52 then UInt16.ofNat (71 + s.val)
  else if s.val < 62 then UInt16.ofNat (s.val - 4)
  else if s.val = 62 then Text.unit '+'
  else Text.unit '/'

/-- The sextet of a letter. -/
def sextet? (u : CodeUnit) : Option Sextet :=
  if h : 65 ≤ u.toNat ∧ u.toNat ≤ 90 then some ⟨u.toNat - 65, by omega⟩
  else if h : 97 ≤ u.toNat ∧ u.toNat ≤ 122 then some ⟨u.toNat - 71, by omega⟩
  else if h : 48 ≤ u.toNat ∧ u.toNat ≤ 57 then some ⟨u.toNat + 4, by omega⟩
  else if u = Text.unit '+' then some 62
  else if u = Text.unit '/' then some 63
  else none

@[simp] theorem sextet?_letter (s : Sextet) : sextet? (letter s) = some s := by
  revert s
  decide

/-- The sixty-four letters in order. -/
def alphabet : Text := (List.finRange 64).map letter

/-- The unit that fills up the last group. -/
def pad : CodeUnit := Text.unit '='

/-! ### Groups of letters and bytes -/

/-- The bytes of a sequence of sextets, without the bits that are left over. -/
def bytesOf : List Sextet → Bytes
  | a :: b :: c :: d :: rest =>
      UInt8.ofNat (4 * a.val + b.val / 16) :: UInt8.ofNat (16 * (b.val % 16) + c.val / 4)
        :: UInt8.ofNat (64 * (c.val % 4) + d.val) :: bytesOf rest
  | [a, b, c] =>
      [UInt8.ofNat (4 * a.val + b.val / 16), UInt8.ofNat (16 * (b.val % 16) + c.val / 4)]
  | [a, b] => [UInt8.ofNat (4 * a.val + b.val / 16)]
  | _ => []

/-- The bits that are left over after the last byte, as the number they would add to one more
byte. -/
def leftover : List Sextet → Nat
  | _ :: _ :: _ :: _ :: rest => leftover rest
  | [_, _, c] => 64 * (c.val % 4)
  | [_, b] => 16 * (b.val % 16)
  | _ => 0

/-- The padded text of a sequence of bytes. -/
def encode : Bytes → Text
  | x :: y :: z :: rest =>
      letter ⟨x.toNat / 4, by have := x.toNat_lt; omega⟩
        :: letter ⟨16 * (x.toNat % 4) + y.toNat / 16, by have := y.toNat_lt; omega⟩
        :: letter ⟨4 * (y.toNat % 16) + z.toNat / 64, by have := z.toNat_lt; omega⟩
        :: letter ⟨z.toNat % 64, by omega⟩ :: encode rest
  | [x, y] =>
      [letter ⟨x.toNat / 4, by have := x.toNat_lt; omega⟩,
        letter ⟨16 * (x.toNat % 4) + y.toNat / 16, by have := y.toNat_lt; omega⟩,
        letter ⟨4 * (y.toNat % 16), by omega⟩, pad]
  | [x] =>
      [letter ⟨x.toNat / 4, by have := x.toNat_lt; omega⟩,
        letter ⟨16 * (x.toNat % 4), by omega⟩, pad, pad]
  | [] => []

/-! ### Reading -/

/-- Why a text is not the padded text of bytes. -/
inductive Fault where
  /-- The length is not a multiple of four. -/
  | partialBytes
  /-- A whole group is padding. -/
  | tooMuchPadding
  /-- A unit outside the alphabet. -/
  | unknownLetter (u : CodeUnit)
  /-- One letter is left alone, which is less than a byte. -/
  | excessPadding
  /-- The bits after the last byte are not zero. -/
  | nonZeroPadding (bits : Nat)
  deriving DecidableEq, Repr

/-- The wording of a fault. -/
def Fault.message : Fault → Text
  | .partialBytes => "padding: invalid, string should have whole number of bytes"
  | .tooMuchPadding => "padding: invalid, string has too much padding"
  | .unknownLetter u => Text.concat ["Unknown letter: \"", [u], "\". Allowed: ", alphabet]
  | .excessPadding => "Excess padding"
  | .nonZeroPadding bits => Text.concat ["Non-zero padding: ", Decimal.text bits]

/-- How many units a text has before the padding at its end. -/
def dataLength (t : Text) : Nat := (t.reverse.dropWhile (· == pad)).length

/-- A text without the padding at its end. -/
def unpadded (t : Text) : Text := t.take (dataLength t)

/-- Padding stands at a place that begins a group of four. -/
def hasFullPad (t : Text) : Bool :=
  let n := dataLength t
  (List.range (t.length - n)).any fun i => (n + i) % 4 == 0

/-- The sextets of a sequence of letters, or the first unit that is none. -/
def sextets : Text → Except Fault (List Sextet)
  | [] => .ok []
  | u :: t =>
      match sextet? u with
      | some s => (sextets t).map (s :: ·)
      | none => .error (.unknownLetter u)

/-- The bytes that a padded text writes. -/
def decode (t : Text) : Except Fault Bytes :=
  if t.length % 4 ≠ 0 then .error .partialBytes
  else if hasFullPad t then .error .tooMuchPadding
  else
    match sextets (unpadded t) with
    | .error fault => .error fault
    | .ok ss =>
        if ss.length % 4 = 1 then .error .excessPadding
        else if leftover ss ≠ 0 then .error (.nonZeroPadding (leftover ss))
        else .ok (bytesOf ss)

/-! ### Bits after the last byte -/

/-- How many of the bits of `count` letters lie after the last whole byte. -/
def spareBits (count : Nat) : Nat := 6 * count % 8

/-- The sextet with its last `n` bits set to zero. -/
def clearLow (n : Nat) (s : Sextet) : Sextet :=
  ⟨s.val / Nat.pow 2 n * Nat.pow 2 n, Nat.lt_of_le_of_lt (Nat.div_mul_le_self ..) s.isLt⟩

/-- A text whose last letter has no set bits after the last byte.  A unit outside the alphabet
stays as it is. -/
def clearSpareBits (t : Text) : Text :=
  let n := dataLength t
  if spareBits n = 0 then t
  else
    match (t[n - 1]?).bind sextet? with
    | none => t
    | some s => t.set (n - 1) (letter (clearLow (spareBits n) s))

end Base64

end WireCodec
