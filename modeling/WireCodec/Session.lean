import WireCodec.Item

/-
**Sessions: named values made from one another.**

A session keeps items under names.  Each step makes an item, perhaps from the text, the JSON text,
the bytes or the parts of earlier ones, or asks about items.  A step that fails changes nothing.

Main definitions:

* `Store`: the items of a session under their names;
* `Step`, `Answer`: what is asked and what is answered;
* `Store.step`, `Session.run`: one step, and all steps of a session.
-/

set_option relaxedAutoImplicit false
set_option autoImplicit false

namespace WireCodec

open Json (Doc)

/-! ### Steps and answers -/

/-- The readers of canonical texts. -/
inductive TextForm where
  | u64
  | hex
  | bytes
  | addressStrict
  | addressRelaxed
  | hash
  deriving DecidableEq, Repr

/-- The way to make an item from a text. -/
def TextForm.recipe : TextForm → Text → Recipe
  | .u64, t => .u64Text t
  | .hex, t => .hexText t
  | .bytes, t => .bytesText t
  | .addressStrict, t => .addressStrict t
  | .addressRelaxed, t => .addressRelaxed t
  | .hash, t => .hashText t

/-- The types with a codec for raw JSON texts. -/
inductive RawForm where
  | u64
  | bytes
  | hash
  | guid
  deriving DecidableEq, Repr

/-- The way to make an item from a raw JSON text. -/
def RawForm.recipe : RawForm → Text → Recipe
  | .u64, raw => .u64Json raw
  | .bytes, raw => .bytesJson raw
  | .hash, raw => .hashJson raw
  | .guid, raw => .guidJson raw

/-- The types that are made of bytes. -/
inductive DataForm where
  | hex
  | bytes
  | address
  deriving DecidableEq, Repr

/-- The way to make an item from bytes. -/
def DataForm.recipe : DataForm → Bytes → Recipe
  | .hex, data => .hexData data
  | .bytes, data => .bytesData data
  | .address, data => .addressData data

/-- A step of a session. -/
inductive Step where
  /-- An item is made and named. -/
  | make (name : Text) (recipe : Recipe)
  /-- An item is looked at. -/
  | look (name : Text)
  /-- Two items are compared. -/
  | equals (a b : Text)
  /-- An item is made from the text of another. -/
  | reparse (name source : Text) (form : TextForm)
  /-- An item is made from the JSON text of another. -/
  | rejson (name source : Text) (form : RawForm)
  /-- An item is made from the bytes of another. -/
  | rebytes (name source : Text) (form : DataForm)
  /-- The identifier of an event is made from its parts. -/
  | guid (name number address : Text)
  /-- Items are written as one JSON array. -/
  | array (names : List Text)
  /-- Items are written as one JSON object, under keys. -/
  | object (fields : List (Text × Text))
  deriving DecidableEq, Repr

/-- The answer to a step. -/
inductive Answer where
  | item (i : Item)
  | equal (b : Bool)
  | json (t : Text)
  | failure (e : Failure)
  /-- The step names an item that is not there, or items that do not go together. -/
  | refused
  deriving DecidableEq, Repr

/-! ### Running -/

/-- The items of a session under their names. -/
abbrev Store := List (Text × Item)

/-- What a step leaves behind: the items, the answer, and the log entries. -/
structure Store.After where
  store : Store
  answer : Answer
  log : List LogEntry

namespace Store

/-- A step that leaves the items as they are. -/
def tell (s : Store) (answer : Answer) : After := ⟨s, answer, []⟩

/-- An item that was made is named, unless that failed. -/
def bind (s : Store) (name : Text) (made : Logged Item) : After :=
  match made.outcome with
  | .ok i => ⟨Json.put name i s, .item i, made.log⟩
  | .error e => ⟨s, .failure e, made.log⟩

/-- The items of some names, if all are there. -/
def all? (s : Store) : List Text → Option (List Item)
  | [] => some []
  | name :: names =>
      match s.lookup name, all? s names with
      | some i, some is => some (i :: is)
      | _, _ => none

/-- One step. -/
def step (s : Store) : Step → After
  | .make name recipe => s.bind name recipe.make
  | .look name =>
      match s.lookup name with
      | some i => s.tell (.item i)
      | none => s.tell .refused
  | .equals a b =>
      match s.lookup a, s.lookup b with
      | some i, some j =>
          match i.equals? j with
          | some e => s.tell (.equal e)
          | none => s.tell .refused
      | _, _ => s.tell .refused
  | .reparse name source form =>
      match s.lookup source with
      | some i => s.bind name (form.recipe i.text).make
      | none => s.tell .refused
  | .rejson name source form =>
      match s.lookup source with
      | some i => s.bind name (form.recipe i.encode).make
      | none => s.tell .refused
  | .rebytes name source form =>
      match (s.lookup source).bind Item.bytes? with
      | some data => s.bind name (form.recipe data).make
      | none => s.tell .refused
  | .guid name number address =>
      match s.lookup number, s.lookup address with
      | some (.u64 n), some (.address a) =>
          s.bind name (.ofExcept
            (((EventGuid.ofNumber (.integer n.value) a).mapError .decode).map .guid))
      | _, _ => s.tell .refused
  | .array names =>
      match s.all? names with
      | some items => s.tell (.json (Doc.array (items.map Item.toDoc)).print)
      | none => s.tell .refused
  | .object fields =>
      match s.all? (fields.map Prod.snd) with
      | some items =>
          let members := ((fields.map Prod.fst).zip items).foldl
            (fun members field => Json.put field.1 field.2.toDoc members) []
          s.tell (.json (Doc.object members).print)
      | none => s.tell .refused

end Store

/-- What the steps of a session leave behind, one after another. -/
def Session.run (s : Store) : List Step → List Store.After
  | [] => []
  | x :: steps => s.step x :: Session.run (s.step x).store steps

end WireCodec
