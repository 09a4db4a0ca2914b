import WireCodec.Json.Value

/-
**Looking up members.**

A member is looked up in a value, then in its parent, and so on to the end of the chain.  The name
`__proto__` is special at the root of the objects: where no value of the chain has such a member
of its own, it names the parent of the value that was asked.

Main definitions:

* `Json.Value.find?`, `Json.Value.chainKeys`: the first member of a name along the chain, and the
  names along it;
* `Json.Value.reachesRoot`: the chain ends at the root of the objects;
* `Json.Value.get`: the member of a value that has members;
* `Json.Misuse`, `Json.Value.member`: the same for any value; null and a missing value have none.
-/

set_option relaxedAutoImplicit false
set_option autoImplicit false

namespace WireCodec

namespace Json

/-- A value is used in a way that it does not support. -/
inductive Misuse where
  /-- A member of null is asked for. -/
  | memberOfNull (key : Text)
  /-- A member of a missing value is asked for. -/
  | memberOfMissing (key : Text)
  /-- A value has no method that turns it into a text or a number. -/
  | notConvertible
  /-- A value stands in the place of the text of a number token. -/
  | notTokenText
  /-- An integer of any size stands in the place of a number in double precision. -/
  | integerForDouble
  /-- A length is greater than that of any array. -/
  | lengthTooLarge
  /-- The items of an array are joined to a text that is too long. -/
  | textTooLong
  /-- The text of a number token denotes no number that double precision can hold. -/
  | overflow (token : Text) (result : Binary64)
  /-- The text of a number token denotes a number that double precision takes for zero. -/
  | underflow (token : Text) (result : Binary64)
  deriving DecidableEq, Repr

namespace Value

/-- A member that is supplied by a root or by the root of the objects behind it. -/
def supplied? : Value → Text → Option Value
  | .root r, key => rootOwn? r key <|> rootOwn? .object key
  | _, _ => none

/-- The first member of a name along the chain of parents. -/
def find? : Value → Text → Option Value
  | .object members p, key => members.lookup key <|> p.find? key
  | v, key => v.own? key <|> supplied? v.parent key

/-- The keys of the values along the chain of parents, apart from lengths and methods. -/
def chainKeys : Value → List Text
  | .object members p => members.map Prod.fst ++ p.chainKeys
  | v => v.ownKeys

/-- The chain of parents ends at the root of the objects. -/
def reachesRoot : Value → Bool
  | .object _ p => p.reachesRoot
  | .missing | .null => false
  | _ => true

/-- The member of a name, missing if nobody along the chain supplies it. -/
def get (v : Value) (key : Text) : Value :=
  match v.find? key with
  | some x => x
  | none => if key = parentKey ∧ v.reachesRoot then v.parent else .missing

/-- The member of a name of any value; null and a missing value cannot be asked. -/
def member (v : Value) (key : Text) : Except Misuse Value :=
  match v with
  | .null => .error (.memberOfNull key)
  | .missing => .error (.memberOfMissing key)
  | v => .ok (v.get key)

/-- A value that passes for a number token: it holds members, and the one named
`isLosslessNumber` is true. -/
def passesForToken (v : Value) : Bool :=
  v.isComposite && match v.get tokenKey with
    | .bool b => b
    | _ => false

end Value

end Json

end WireCodec
