/-
**Text as a sequence of UTF-16 code units.**

Every length, index and character of this library counts code units, and a text may hold a
surrogate without its partner.  So a text is the list of its units; the character string it
spells is only a view (`Text.toString`), in which a lone surrogate is shown as U+FFFD.

Main definitions:

* `CodeUnit`, `Text`: a unit and a list of units;
* `Text.ofString`, `Text.toString`: from and to character strings;
* `Text.codePoints`, `Text.ofCodePoint`: from and to code points, where no surrogate is lost;
* `Text.after?`: what follows a given beginning;
* `Text.isBlank`, `Text.trim`: white space, and a text without it at both ends;
* `Text.lower`: the ASCII capitals made small.
-/

set_option relaxedAutoImplicit false
set_option autoImplicit false

namespace WireCodec

/-- A UTF-16 code unit. -/
abbrev CodeUnit := UInt16

/-- A text: its code units in order. -/
abbrev Text := List CodeUnit

namespace Text

/-! ### Units and characters -/

/-- The unit of a character below U+10000. -/
def unit (c : Char) : CodeUnit := UInt16.ofNat c.toNat

/-- The units of a character: one, or a pair of surrogates from U+10000 on. -/
def ofChar (c : Char) : Text :=
  if c.toNat < 0x10000 then [unit c]
  else
    [UInt16.ofNat (0xD800 + (c.toNat - 0x10000) / 0x400),
      UInt16.ofNat (0xDC00 + (c.toNat - 0x10000) % 0x400)]

/-- The units of a character string. -/
def ofString (s : String) : Text := s.toList.flatMap ofChar

instance : Coe String Text := ⟨ofString⟩

/-- Texts one after another. -/
def concat (parts : List Text) : Text := parts.flatten

/-- A leading surrogate, which opens a pair. -/
def isLead (u : CodeUnit) : Bool := 0xD800 ≤ u.toNat && u.toNat < 0xDC00

/-- A trailing surrogate, which closes a pair. -/
def isTrail (u : CodeUnit) : Bool := 0xDC00 ≤ u.toNat && u.toNat < 0xE000

/-- A surrogate of either kind. -/
def isSurrogate (u : CodeUnit) : Bool := isLead u || isTrail u

/-- The code point of a pair of surrogates. -/
def pairPoint (lead trail : CodeUnit) : Nat :=
  0x10000 + (lead.toNat - 0xD800) * 0x400 + (trail.toNat - 0xDC00)

/-- The character of a pair of surrogates. -/
def pairChar (lead trail : CodeUnit) : Char := Char.ofNat (pairPoint lead trail)

/-- The character of a unit that stands alone, U+FFFD for a surrogate. -/
def loneChar (u : CodeUnit) : Char :=
  if isSurrogate u then Char.ofNat 0xFFFD else Char.ofNat u.toNat

/-- The characters that a text spells, with U+FFFD for each lone surrogate. -/
def toChars : Text → List Char
  | [] => []
  | [u] => [loneChar u]
  | u :: v :: rest =>
      if isLead u && isTrail v then pairChar u v :: toChars rest
      else loneChar u :: toChars (v :: rest)

/-- The character string that a text spells, with U+FFFD for each lone surrogate. -/
def toString (t : Text) : String := String.ofList (toChars t)

/-- The code points of a text, where a lone surrogate is one of its own. -/
def codePoints : Text → List Nat
  | [] => []
  | [u] => [u.toNat]
  | u :: v :: rest =>
      if isLead u && isTrail v then pairPoint u v :: codePoints rest
      else u.toNat :: codePoints (v :: rest)

/-- The units of a code point. -/
def ofCodePoint (c : Nat) : Text :=
  if c < 0x10000 then [UInt16.ofNat c]
  else
    [UInt16.ofNat (0xD800 + (c - 0x10000) / 0x400),
      UInt16.ofNat (0xDC00 + (c - 0x10000) % 0x400)]

/-! ### Beginnings and ends -/

/-- What follows `start` in a text that begins with it. -/
def after? : Text → Text → Option Text
  | [], t => some t
  | _ :: _, [] => none
  | s :: start, u :: t => if s = u then after? start t else none

theorem after?_eq_some {start t rest : Text} : after? start t = some rest ↔ t = start ++ rest := by
  induction start generalizing t with
  | nil => simp [after?]
  | cons s start ih =>
      cases t with
      | nil => simp [after?]
      | cons u t =>
          by_cases h : s = u
          · simp [after?, h, ih]
          · simp [after?, h, Ne.symm h]

/-- White space: the ASCII blanks and line breaks, the no-break and the typographic spaces, the
two separators of lines and paragraphs, and the byte order mark. -/
def isBlank (u : CodeUnit) : Bool :=
  let n := u.toNat
  (9 ≤ n && n ≤ 13) || n == 0x20 || n == 0xA0 || n == 0x1680 || (0x2000 ≤ n && n ≤ 0x200A)
    || n == 0x2028 || n == 0x2029 || n == 0x202F || n == 0x205F || n == 0x3000 || n == 0xFEFF

/-- A text without the white space at its two ends. -/
def trim (t : Text) : Text := ((t.dropWhile isBlank).reverse.dropWhile isBlank).reverse

/-! ### Letter case -/

/-- The small letter of an ASCII capital; every other unit stays. -/
def lowerUnit (u : CodeUnit) : CodeUnit :=
  if 65 ≤ u.toNat && u.toNat ≤ 90 then UInt16.ofNat (u.toNat + 32) else u

/-- A text with its ASCII capitals made small. -/
def lower (t : Text) : Text := t.map lowerUnit

end Text

end WireCodec
