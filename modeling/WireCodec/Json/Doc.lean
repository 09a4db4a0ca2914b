import WireCodec.Json.Numeral

/-
**JSON documents as written.**

A document keeps its number tokens, the order of its members and members of one key.  What a
document means, when objects have parents and keys repeat, is the matter of `WireCodec.Json.Value`.

Main definitions:

* `Json.Doc`: a document;
* `Json.Doc.Shape`, `Json.Doc.shape`: the six shapes a document can be written in.
-/

set_option relaxedAutoImplicit false
set_option autoImplicit false

namespace WireCodec

namespace Json

/-- A JSON document. -/
inductive Doc where
  | null
  | bool (b : Bool)
  | number (n : Numeral)
  | text (t : Text)
  | array (items : List Doc)
  | object (members : List (Text × Doc))
  deriving Repr, Inhabited

/-- The shapes a document can be written in. -/
inductive Doc.Shape where
  | null
  | bool
  | number
  | text
  | array
  | object
  deriving DecidableEq, Repr

/-- The shape a document is written in. -/
def Doc.shape : Doc → Doc.Shape
  | .null => .null
  | .bool _ => .bool
  | .number _ => .number
  | .text _ => .text
  | .array _ => .array
  | .object _ => .object

end Json

end WireCodec
