import WireCodec.Json.Member

/-
**Deep equality of values.**

Two arrays are equal when their items are.  Two other values with members are equal when they have
equal members at every key that one of them has itself; so an array equals an object with the same
members, and a number token equals an object with its text.  All other values are compared as they
are.

Main definitions:

* `Json.Value.deepEqual`: the comparison.
-/

set_option relaxedAutoImplicit false
set_option autoImplicit false

namespace WireCodec

namespace Json

namespace Value

/-- Two values without members are the same. -/
def samePlain : Value → Value → Bool
  | .missing, .missing => true
  | .null, .null => true
  | .bool a, .bool b => a == b
  | .text a, .text b => a == b
  | .double a, .double b => a == b
  | .integer a, .integer b => a == b
  | _, _ => false

/-- The keys that one of two values has itself, each once. -/
def eitherKeys (a b : Value) : List Text :=
  a.ownKeys ++ b.ownKeys.filter fun key => !a.ownKeys.contains key

/-- Deep equality down to the depth `fuel`. -/
def deepEqualTo : Nat → Value → Value → Bool
  | 0, _, _ => false
  | fuel + 1, a, b =>
      match a.items?, b.items? with
      | some xs, some ys =>
          xs.length == ys.length && (xs.zip ys).all fun (x, y) => deepEqualTo fuel x y
      | _, _ =>
          if a.isComposite && b.isComposite then
            (eitherKeys a b).all fun key => deepEqualTo fuel (a.get key) (b.get key)
          else samePlain a b

/-- Deep equality.  Each step goes one level down in one of the two values, or up a parent. -/
def deepEqual (a b : Value) : Bool := deepEqualTo (a.depth + b.depth + 3) a b

end Value

end Json

end WireCodec
