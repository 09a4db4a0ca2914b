import WireCodec.Json.Doc

/-
**Values that a document stands for.**

Reading a document gives a value.  Number tokens may be kept or rounded.  An object has its own
members and a parent, in which members are looked up that it does not have itself; a chain of
parents ends at one of the `Json.Root`s, which supply the methods that every value of a kind
answers to, or at null.

Main definitions:

* `Json.Root`: the ends of the chains of parents;
* `Json.Value`: a value;
* `Json.Value.own?`: the members of a value itself;
* `Json.Value.depth`: how deep a value is nested.
-/

set_option relaxedAutoImplicit false
set_option autoImplicit false

namespace WireCodec

namespace Json

/-! ### Roots -/

/-- The ends of the chains of parents, one for each kind of value that has members. -/
inductive Root where
  | object
  | array
  | text
  | bool
  | double
  | integer
  | token
  deriving DecidableEq, Repr

/-- The names of the methods that a root supplies. -/
def Root.methodNames : Root → List String
  | .object =>
      ["constructor", "hasOwnProperty", "isPrototypeOf", "propertyIsEnumerable", "toString",
        "valueOf", "toLocaleString", "__defineGetter__", "__defineSetter__", "__lookupGetter__",
        "__lookupSetter__"]
  | .array =>
      ["constructor", "at", "concat", "copyWithin", "fill", "find", "findIndex", "findLast",
        "findLastIndex", "lastIndexOf", "pop", "push", "reverse", "shift", "unshift", "slice",
        "sort", "splice", "includes", "indexOf", "join", "keys", "entries", "values", "forEach",
        "filter", "flat", "flatMap", "map", "every", "some", "reduce", "reduceRight",
        "toReversed", "toSorted", "toSpliced", "toLocaleString", "toString", "with"]
  | .text =>
      ["constructor", "anchor", "at", "big", "blink", "bold", "charAt", "charCodeAt",
        "codePointAt", "concat", "endsWith", "fontcolor", "fontsize", "fixed", "includes",
        "indexOf", "isWellFormed", "italics", "lastIndexOf", "link", "localeCompare", "match",
        "matchAll", "normalize", "padEnd", "padStart", "repeat", "replace", "replaceAll",
        "search", "slice", "small", "split", "strike", "sub", "substr", "substring", "sup",
        "startsWith", "toString", "toWellFormed", "trim", "trimStart", "trimLeft", "trimEnd",
        "trimRight", "toLocaleLowerCase", "toLocaleUpperCase", "toLowerCase", "toUpperCase",
        "valueOf"]
  | .bool => ["constructor", "toString", "valueOf"]
  | .double =>
      ["constructor", "toExponential", "toFixed", "toPrecision", "toString", "valueOf",
        "toLocaleString"]
  | .integer => ["constructor", "toLocaleString", "toString", "valueOf"]
  | .token => ["constructor", "valueOf", "toString"]

/-- The names of the methods that a root supplies, as texts. -/
def Root.methods (r : Root) : List Text := r.methodNames.map Text.ofString

/-! ### Values -/

/-- A value.  The parent of an object is null, a root, or any value with members. -/
inductive Value where
  /-- What a member is that nobody supplies. -/
  | missing
  | null
  | bool (b : Bool)
  | text (t : Text)
  | double (x : Binary64)
  | integer (i : Int)
  /-- A number token, kept as it is written. -/
  | token (n : Numeral)
  | array (items : List Value)
  | object (members : List (Text × Value)) (parent : Value)
  | root (r : Root)
  /-- A method that a root supplies.  It is a leaf: it holds no members of its own, such as its name
  or its length, and its parent is the root of the objects. -/
  | method (owner : Root)
  deriving Repr, Inhabited

namespace Value

/-- The name under which a number token is recognised. -/
def tokenKey : Text := "isLosslessNumber"
/-- The name under which a number token has its text. -/
def valueKey : Text := "value"
/-- The name under which texts and arrays have their length. -/
def lengthKey : Text := "length"
/-- The name under which a value has its parent. -/
def parentKey : Text := "__proto__"

/-- The place that a text names in a list: a number below the length, written without leading
zeros. -/
def place? (key : Text) (length : Nat) : Option Nat :=
  match Decimal.read? key with
  | some n => if n < length ∧ Decimal.text n = key then some n else none
  | none => none

/-- A length as a value. -/
def ofLength (n : Nat) : Value := .double (Binary64.ofQuotient false n 1)

/-- A member that a root itself supplies. -/
def rootOwn? (r : Root) (key : Text) : Option Value :=
  if key ∈ r.methods then some (.method r)
  else if (r = .array ∨ r = .text) ∧ key = lengthKey then some (ofLength 0)
  else none

/-- A member of the value itself. -/
def own? : Value → Text → Option Value
  | .text t, key =>
      if key = lengthKey then some (ofLength t.length)
      else ((place? key t.length).bind (t[·]?)).map fun u => .text [u]
  | .token n, key =>
      if key = tokenKey then some (.bool true)
      else if key = valueKey then some (.text n.text)
      else none
  | .array items, key =>
      if key = lengthKey then some (ofLength items.length)
      else (place? key items.length).bind (items[·]?)
  | .object members _, key => members.lookup key
  | .root r, key => rootOwn? r key
  | _, _ => none

/-- The keys of a value itself, apart from lengths. -/
def ownKeys : Value → List Text
  | .text t => (List.range t.length).map Decimal.text
  | .token _ => [tokenKey, valueKey]
  | .array items => (List.range items.length).map Decimal.text
  | .object members _ => members.map Prod.fst
  | _ => []

/-- The value in which members are looked up next. -/
def parent : Value → Value
  | .missing | .null => .null
  | .bool _ => .root .bool
  | .text _ => .root .text
  | .double _ => .root .double
  | .integer _ => .root .integer
  | .token _ => .root .token
  | .array _ => .root .array
  | .object _ p => p
  | .root .object => .null
  | .root _ => .root .object
  | .method _ => .root .object

/-- The items of an array; the root of the arrays is an empty one. -/
def items? : Value → Option (List Value)
  | .array items => some items
  | .root .array => some []
  | _ => none

/-- A value that holds members, as opposed to a text, a number, a truth value or nothing. -/
def isComposite : Value → Bool
  | .token _ | .array _ | .object .. | .root _ => true
  | _ => false

/-! ### Depth -/

mutual

/-- How deep a value is nested, members and parents counted alike. -/
def depth : Value → Nat
  | .array items => depthItems items + 1
  | .object members p => max (depthMembers members) p.depth + 1
  | _ => 1

/-- The greatest depth of the items of an array. -/
def depthItems : List Value → Nat
  | [] => 0
  | v :: rest => max v.depth (depthItems rest)

/-- The greatest depth of the members of an object. -/
def depthMembers : List (Text × Value) → Nat
  | [] => 0
  | (_, v) :: rest => max v.depth (depthMembers rest)

end

end Value

end Json

end WireCodec
