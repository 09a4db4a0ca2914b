import WireCodec.Json.Parser
import WireCodec.Json.Equality

/-
**From a document to its value.**

There are two ways to read.  The lossless reading keeps number tokens, refuses to give a key two
different values, and takes the key `__proto__` for the parent of an object.  The plain reading
rounds numbers to double precision, lets the last of several members of one key win, and treats
every key alike.

Main definitions:

* `Json.Reading`: the two ways;
* `Json.Reading.assign`: an object given one more member;
* `Json.Value.ofDoc`: the value of a document;
* `Json.Value.read`: the value of a text.
-/

set_option relaxedAutoImplicit false
set_option autoImplicit false

namespace WireCodec

namespace Json

/-- The two ways to read a document. -/
inductive Reading where
  | lossless
  | plain
  deriving DecidableEq, Repr

/-- A list of members in which `key` has the value `v`; a new key comes last. -/
def put {α : Type} (key : Text) (v : α) : List (Text × α) → List (Text × α)
  | [] => [(key, v)]
  | (k, w) :: rest => if k = key then (key, v) :: rest else (k, w) :: put key v rest

@[simp] theorem lookup_put_self {α : Type} (key : Text) (v : α) (members : List (Text × α)) :
    (put key v members).lookup key = some v := by
  induction members with
  | nil => simp [put]
  | cons m rest ih =>
      obtain ⟨k, w⟩ := m
      by_cases h : k = key
      · simp [put, h]
      · have hk : (key == k) = false := by simpa using Ne.symm h
        simp [put, h, List.lookup_cons, hk, ih]

theorem lookup_put_ne {α : Type} {key other : Text} (h : other ≠ key) (v : α)
    (members : List (Text × α)) : (put key v members).lookup other = members.lookup other := by
  have ho : (other == key) = false := by simpa using h
  induction members with
  | nil => simp [put, List.lookup_cons, ho]
  | cons m rest ih =>
      obtain ⟨k, w⟩ := m
      by_cases hk : k = key
      · subst hk
        simp [put, List.lookup_cons, ho]
      · simp [put, hk, List.lookup_cons, ih]

namespace Value

/-- The parent that an assignment to `__proto__` gives to an object: a value with members or
null.  Any other value leaves the parent as it is. -/
def adopt (old new : Value) : Value :=
  match new with
  | .null => .null
  | v => if v.isComposite then v else old

end Value

/-- An object's members and parent, given one more member.  In the lossless reading `__proto__`
names the parent, unless the object's chain has left the root of the objects. -/
def Reading.assign (r : Reading) (object : List (Text × Value) × Value) (key : Text) (v : Value) :
    List (Text × Value) × Value :=
  if r = .lossless ∧ key = Value.parentKey ∧ object.2.reachesRoot then
    (object.1, Value.adopt object.2 v)
  else (put key v object.1, object.2)

/-- The value of a number token. -/
def Reading.number : Reading → Numeral → Value
  | .lossless, n => .token n
  | .plain, n => .double n.double

namespace Value

mutual

/-- The value of a document. -/
def ofDoc (r : Reading) : Doc → Value
  | .null => .null
  | .bool b => .bool b
  | .number n => r.number n
  | .text t => .text t
  | .array items => .array (ofItems r items)
  | .object members =>
      .object (ofMembers r ([], .root .object) members).1
        (ofMembers r ([], .root .object) members).2

/-- The values of the items of an array. -/
def ofItems (r : Reading) : List Doc → List Value
  | [] => []
  | d :: rest => ofDoc r d :: ofItems r rest

/-- An object's members and parent after the assignments of `members`, from left to right. -/
def ofMembers (r : Reading) (object : List (Text × Value) × Value) :
    List (Text × Doc) → List (Text × Value) × Value
  | [] => object
  | (key, d) :: rest => ofMembers r (r.assign object key (ofDoc r d)) rest

end

end Value

/-- Which members an object may still take.  The plain reading takes all; the lossless reading
takes a key that the object already has itself only with a deeply equal value. -/
def Reading.admits : Reading → Admission
  | .plain, _, _, _ => true
  | .lossless, seen, key, d =>
      if seen.any fun m => m.1 == key then
        match (Value.ofMembers .lossless ([], .root .object) seen).1.lookup key with
        | some old => Value.deepEqual (Value.ofDoc .lossless d) old
        | none => true
      else true

/-- The value of a text. -/
def Value.read (r : Reading) (t : Text) : Except Fault Value :=
  (Doc.parse r.admits t).map (Value.ofDoc r)

end Json

end WireCodec
