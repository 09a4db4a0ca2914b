import WireCodec.Json.Member

/-
**Kinds of values, as error messages name them.**

Main definitions:

* `Json.Kind`, `Json.Kind.name`: a kind and its name;
* `Json.Value.kind`: the kind of a value, where what passes for a number token is a number;
* `Json.Value.isObject`: the value is an object and passes for nothing else.
-/

set_option relaxedAutoImplicit false
set_option autoImplicit false

namespace WireCodec

namespace Json

/-- The kinds of values. -/
inductive Kind where
  | null
  | array
  | number
  | missing
  | bool
  | text
  | integer
  | object
  | method
  deriving DecidableEq, Repr

/-- The name of a kind. -/
def Kind.name : Kind → String
  | .null => "null"
  | .array => "array"
  | .number => "number"
  | .missing => "undefined"
  | .bool => "boolean"
  | .text => "string"
  | .integer => "bigint"
  | .object => "object"
  | .method => "function"

/-- The kind of a value. -/
def Value.kind (v : Value) : Kind :=
  match v with
  | .missing => .missing
  | .null => .null
  | .bool _ => .bool
  | .text _ => .text
  | .double _ => .number
  | .integer _ => .integer
  | .method _ => .method
  | .array _ => .array
  | .root .array => .array
  | v => if v.passesForToken then .number else .object

/-- The value is an object and passes for nothing else. -/
def Value.isObject (v : Value) : Bool := v.kind == .object

/-- The kind that a document's shape announces. -/
def Doc.Shape.kind : Doc.Shape → Kind
  | .null => .null
  | .bool => .bool
  | .number => .number
  | .text => .text
  | .array => .array
  | .object => .object

end Json

end WireCodec
