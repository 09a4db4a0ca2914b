import WireCodec.Base16
import WireCodec.Json.Doc

/-
**The compact text of a JSON document.**

There is no white space between tokens.  In a text only the quote, the backslash, the units below
U+0020 and lone surrogates are escaped.

Main definitions:

* `Json.quoted`: a text between quotes, with its escapes;
* `Json.Doc.print`: the compact text of a document.
-/

set_option relaxedAutoImplicit false
set_option autoImplicit false

namespace WireCodec

namespace Json

/-! ### Punctuation -/

/-- The unit around a text. -/
def quote : CodeUnit := 0x22
/-- The unit in front of an escape. -/
def backslash : CodeUnit := 0x5C
/-- The unit between items and between members. -/
def comma : CodeUnit := 0x2C
/-- The unit between a key and its value. -/
def colon : CodeUnit := 0x3A
/-- The unit that opens an array. -/
def openArray : CodeUnit := 0x5B
/-- The unit that closes an array. -/
def closeArray : CodeUnit := 0x5D
/-- The unit that opens an object. -/
def openObject : CodeUnit := 0x7B
/-- The unit that closes an object. -/
def closeObject : CodeUnit := 0x7D

/-- The word of a document without content. -/
def nullWord : Text := "null"
/-- The word for true. -/
def trueWord : Text := "true"
/-- The word for false. -/
def falseWord : Text := "false"

/-! ### Texts -/

/-- The escape `\uXXXX` of a unit, with small letters. -/
def unicodeEscape (u : CodeUnit) : Text :=
  backslash :: Text.unit 'u' :: (Base16.pair (UInt8.ofNat (u.toNat / 256))
    ++ Base16.pair (UInt8.ofNat (u.toNat % 256)))

/-- The escape of a unit that stands alone. -/
def escapeUnit (u : CodeUnit) : Text :=
  if u = quote then [backslash, quote]
  else if u = backslash then [backslash, backslash]
  else if u = 0x08 then [backslash, Text.unit 'b']
  else if u = 0x09 then [backslash, Text.unit 't']
  else if u = 0x0A then [backslash, Text.unit 'n']
  else if u = 0x0C then [backslash, Text.unit 'f']
  else if u = 0x0D then [backslash, Text.unit 'r']
  else if u.toNat < 0x20 || Text.isSurrogate u then unicodeEscape u
  else [u]

/-- The content of a text, with its escapes.  The two surrogates of a pair stay as they are. -/
def escape : Text → Text
  | [] => []
  | [u] => escapeUnit u
  | u :: v :: rest =>
      if Text.isLead u && Text.isTrail v then u :: v :: escape rest
      else escapeUnit u ++ escape (v :: rest)

/-- A text between quotes. -/
def quoted (t : Text) : Text := quote :: (escape t ++ [quote])

/-! ### Documents -/

mutual

/-- The compact text of a document. -/
def Doc.print : Doc → Text
  | .null => nullWord
  | .bool b => if b then trueWord else falseWord
  | .number n => n.text
  | .text t => quoted t
  | .array items => openArray :: (Doc.printItems items ++ [closeArray])
  | .object members => openObject :: (Doc.printMembers members ++ [closeObject])

/-- The items of an array with commas between them. -/
def Doc.printItems : List Doc → Text
  | [] => []
  | [d] => d.print
  | d :: rest => d.print ++ comma :: Doc.printItems rest

/-- The members of an object with commas between them. -/
def Doc.printMembers : List (Text × Doc) → Text
  | [] => []
  | [(key, d)] => quoted key ++ colon :: d.print
  | (key, d) :: rest => quoted key ++ colon :: (d.print ++ comma :: Doc.printMembers rest)

end

end Json

end WireCodec
