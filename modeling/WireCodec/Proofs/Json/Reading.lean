import WireCodec.Json.Kind
import WireCodec.Json.Reading

/-
**Members and parents of the values of documents.**

In the lossless reading the last member of a key counts, and the members under `__proto__` give the
object its parent.  So what is looked up in the value of an object is found in the document: in the
last member of the key, or else in the document that is the parent.

Main definitions:

* `Json.lastMember?`, `Json.parentMember?`: the last member of a key, and the parent;
* `Json.Value.IsOrdinary`: a name that only objects and number tokens have members of;
* `Json.Doc.PassesForNumber`: a number, or an object that passes for one.

Main results:

* `Json.Value.find?_ofDoc_object`: where a member is looked up;
* `Json.Value.IsOrdinary.get_ofDoc`: a member of an ordinary name is missing or a document's value;
* `Json.Doc.passesForNumber_iff`: what passes for a number is read as a number.
-/

set_option relaxedAutoImplicit false
set_option autoImplicit false

namespace WireCodec

namespace Json

/-! ### Members of objects -/

/-- The last of the members of a key. -/
def lastMember? (key : Text) (members : List (Text × Doc)) : Option Doc :=
  members.reverse.lookup key

/-- A document that an object can have for a parent: no text and no truth value. -/
def Doc.canBeParent : Doc → Bool
  | .bool _ | .text _ => false
  | _ => true

/-- The value of a parent; without one it is the root of the objects. -/
def parentValue : Option Doc → Value
  | none => .root .object
  | some d => .ofDoc .lossless d

/-- The parent after one more member. -/
def nextParent (parent : Option Doc) (m : Text × Doc) : Option Doc :=
  if m.1 = Value.parentKey ∧ (parentValue parent).reachesRoot = true ∧ m.2.canBeParent = true then
    some m.2
  else parent

/-- The document that the members make the parent of their object: the last one under `__proto__`
that can be a parent, as long as the chain of parents reaches the root of the objects. -/
def parentMember? (members : List (Text × Doc)) : Option Doc := members.foldl nextParent none

theorem lastMember?_cons (key : Text) (m : Text × Doc) (rest : List (Text × Doc)) :
    lastMember? key (m :: rest) =
      (lastMember? key rest).or (if key = m.1 then some m.2 else none) := by
  obtain ⟨k, d⟩ := m
  rw [lastMember?, List.reverse_cons, List.lookup_append, ← lastMember?]
  congr 1
  by_cases h : key = k <;> simp [h]

/-- A parent is one of the members, and can be a parent. -/
theorem mem_of_foldl_nextParent {members : List (Text × Doc)} {parent : Option Doc} {p : Doc}
    (h : members.foldl nextParent parent = some p) :
    parent = some p ∨ ((Value.parentKey, p) ∈ members ∧ p.canBeParent = true) := by
  induction members generalizing parent with
  | nil => exact .inl h
  | cons m rest ih =>
      rcases ih h with hm | ⟨hm, hp⟩
      · rw [nextParent] at hm
        split at hm
        · next hkey =>
            obtain rfl := Option.some_inj.1 hm
            refine .inr ⟨List.mem_cons.2 (.inl ?_), hkey.2.2⟩
            rw [← hkey.1]
        · exact .inl hm
      · exact .inr ⟨List.mem_cons_of_mem m hm, hp⟩

theorem mem_of_parentMember? {members : List (Text × Doc)} {p : Doc}
    (h : parentMember? members = some p) :
    (Value.parentKey, p) ∈ members ∧ p.canBeParent = true := by
  rcases mem_of_foldl_nextParent h with hnone | hmem
  · cases hnone
  · exact hmem

theorem sizeOf_parentMember?_lt {members : List (Text × Doc)} {p : Doc}
    (h : parentMember? members = some p) : sizeOf p < sizeOf (Doc.object members) := by
  have hlt := List.sizeOf_lt_of_mem (mem_of_parentMember? h).1
  rw [Prod.mk.sizeOf_spec] at hlt
  rw [Doc.object.sizeOf_spec]
  omega

/-! ### Their values -/

namespace Value

theorem adopt_ofDoc (old : Value) (d : Doc) :
    adopt old (ofDoc .lossless d) = if d.canBeParent then ofDoc .lossless d else old := by
  cases d <;> rfl

section

variable (members : List (Text × Value)) (parent : Option Doc)

theorem assign_snd (m : Text × Doc) :
    (Reading.lossless.assign (members, parentValue parent) m.1 (ofDoc .lossless m.2)).2 =
      parentValue (nextParent parent m) := by
  rw [Reading.assign, nextParent, adopt_ofDoc]
  simp only [true_and]
  by_cases h : m.1 = parentKey ∧ (parentValue parent).reachesRoot = true
  · by_cases hm : m.2.canBeParent = true
    · have hall := And.intro h.1 (And.intro h.2 hm)
      rw [if_pos h, if_pos hm, if_pos hall]
      rfl
    · rw [if_pos h, if_neg hm, if_neg fun hall => hm hall.2.2]
  · rw [if_neg h, if_neg fun hall => h ⟨hall.1, hall.2.1⟩]

theorem lookup_assign {r : Reading} {key : Text} (hkey : r = .lossless → key ≠ parentKey)
    (m : Text × Doc) (old : Value) :
    (r.assign (members, old) m.1 (ofDoc r m.2)).1.lookup key =
      if key = m.1 then some (ofDoc r m.2) else members.lookup key := by
  rw [Reading.assign]
  split
  · next h => rw [if_neg fun heq => hkey h.1 (heq.trans h.2.1)]
  · by_cases h : key = m.1
    · rw [if_pos h, h, lookup_put_self]
    · rw [if_neg h, lookup_put_ne h]

theorem ofMembers_snd (ms : List (Text × Doc)) :
    (ofMembers .lossless (members, parentValue parent) ms).2 =
      parentValue (ms.foldl nextParent parent) := by
  -- the members and the parent so far are those of any object
  induction ms generalizing members parent with
  | nil => rfl
  | cons m rest ih =>
      have hassign : Reading.lossless.assign (members, parentValue parent) m.1
          (ofDoc .lossless m.2) = (_, parentValue (nextParent parent m)) :=
        Prod.ext rfl (assign_snd members parent m)
      rw [ofMembers, hassign, ih, List.foldl_cons]

/-- The last member of a key counts. -/
theorem lookup_ofMembers {r : Reading} {key : Text} (hkey : r = .lossless → key ≠ parentKey)
    (old : Value) (ms : List (Text × Doc)) :
    (ofMembers r (members, old) ms).1.lookup key =
      ((lastMember? key ms).map (ofDoc r)).or (members.lookup key) := by
  induction ms generalizing members old with
  | nil => rfl
  | cons m rest ih =>
      rw [ofMembers, ← Prod.eta (Reading.assign _ _ _ _), ih, lookup_assign members hkey,
        lastMember?_cons]
      by_cases h : key = m.1
      · rw [if_pos h, if_pos h]
        cases lastMember? key rest <;> rfl
      · rw [if_neg h, if_neg h, Option.or_none]

end

/-- The value of an object: its members, and the value of its parent. -/
theorem ofDoc_object (ms : List (Text × Doc)) :
    ofDoc .lossless (.object ms) = .object (ofMembers .lossless ([], .root .object) ms).1
      (parentValue (parentMember? ms)) := by
  rw [ofDoc, parentMember?, ← ofMembers_snd [] none ms]
  rfl

/-- **A member is looked up in the last member of the key, and then in the parent.** -/
theorem find?_ofDoc_object {key : Text} (hkey : key ≠ parentKey) (ms : List (Text × Doc)) :
    (ofDoc .lossless (.object ms)).find? key =
      ((lastMember? key ms).map (ofDoc .lossless)).or
        ((parentValue (parentMember? ms)).find? key) := by
  rw [ofDoc_object, find?, lookup_ofMembers [] fun _ => hkey]
  cases lastMember? key ms <;> rfl

theorem get_of_ne_parentKey {key : Text} (hkey : key ≠ parentKey) (v : Value) :
    v.get key = (v.find? key).getD .missing := by
  rw [get]
  cases v.find? key with
  | some x => rfl
  | none => exact if_neg fun h => hkey h.1

/-! ### Ordinary names -/

theorem find?_of_not_object (v : Value) (h : ∀ members p, v ≠ .object members p) (key : Text) :
    v.find? key = (v.own? key).or (supplied? v.parent key) := by
  cases v with
  | object members p => exact absurd rfl (h members p)
  | missing | null | bool b | text t | double x | integer i | token n | array items | root r
  | method owner => rw [find?.eq_def]; exact Option.orElse_eq_or

theorem find?_array (items : List Value) (key : Text) :
    (Value.array items).find? key =
      ((Value.array items).own? key).or (supplied? (.root .array) key) :=
  find?_of_not_object (.array items) nofun key

theorem find?_token (n : Numeral) (key : Text) :
    (Value.token n).find? key = ((Value.token n).own? key).or (supplied? (.root .token) key) :=
  find?_of_not_object (.token n) nofun key

/-- A name that no root supplies and that is no place, no length and no parent.  Only objects and
number tokens have members of such a name. -/
structure IsOrdinary (key : Text) : Prop where
  rootOwn : ∀ r, rootOwn? r key = none
  read : Decimal.read? key = none
  ne_length : key ≠ lengthKey
  ne_parent : key ≠ parentKey

theorem isOrdinary_tokenKey : IsOrdinary tokenKey where
  rootOwn r := by cases r <;> rfl
  read := rfl
  ne_length := by decide
  ne_parent := by decide

theorem isOrdinary_valueKey : IsOrdinary valueKey where
  rootOwn r := by cases r <;> rfl
  read := rfl
  ne_length := by decide
  ne_parent := by decide

section

variable {key : Text} (hkey : IsOrdinary key)
include hkey

theorem IsOrdinary.supplied?_root (r : Root) : supplied? (.root r) key = none := by
  rw [supplied?, hkey.rootOwn, hkey.rootOwn]
  rfl

theorem IsOrdinary.find?_root (r : Root) : (Value.root r).find? key = none := by
  rw [find?_of_not_object (.root r) nofun, own?, hkey.rootOwn, Option.none_or]
  cases r with
  | object => rfl
  | array | text | bool | double | integer | token => exact hkey.supplied?_root .object

theorem IsOrdinary.place? (length : Nat) : place? key length = none := by
  rw [Value.place?, hkey.read]

/-- No text, array, truth value or null has a member of the name. -/
theorem IsOrdinary.find?_eq_none {r : Reading} {d : Doc} (hobject : ∀ members, d ≠ .object members)
    (hnumber : ∀ n, d ≠ .number n) : (ofDoc r d).find? key = none := by
  cases d with
  | object members => exact absurd rfl (hobject members)
  | number n => exact absurd rfl (hnumber n)
  | null => rfl
  | bool b => exact hkey.supplied?_root .bool
  | text t =>
      rw [ofDoc, find?_of_not_object (.text t) nofun, own?, if_neg hkey.ne_length, hkey.place?]
      exact hkey.supplied?_root .text
  | array items =>
      rw [ofDoc, find?_array, own?, if_neg hkey.ne_length, hkey.place?]
      exact hkey.supplied?_root .array

/-- What is found under the name is the value of a document. -/
theorem IsOrdinary.exists_doc_of_find? {d : Doc} {x : Value}
    (h : (ofDoc .lossless d).find? key = some x) : ∃ d', x = ofDoc .lossless d' := by
  match d with
  | .null | .bool _ | .text _ | .array _ =>
      rw [hkey.find?_eq_none] at h
      · cases h
      · nofun
      · nofun
  | .number n =>
      rw [ofDoc, Reading.number, find?_token, own?] at h
      split at h
      · exact ⟨.bool true, (Option.some_inj.1 h).symm⟩
      split at h
      · exact ⟨.text n.text, (Option.some_inj.1 h).symm⟩
      · have hnone : supplied? (.root .token) key = none := hkey.supplied?_root .token
        rw [hnone] at h
        cases h
  | .object members =>
      rw [find?_ofDoc_object hkey.ne_parent] at h
      cases hown : lastMember? key members with
      | some d' =>
          rw [hown] at h
          exact ⟨d', (Option.some_inj.1 h).symm⟩
      | none =>
          rw [hown, Option.map_none, Option.none_or] at h
          cases hparent : parentMember? members with
          | none =>
              rw [hparent, parentValue, hkey.find?_root] at h
              cases h
          | some p =>
              rw [hparent] at h
              exact IsOrdinary.exists_doc_of_find? h
termination_by sizeOf d
decreasing_by exact sizeOf_parentMember?_lt hparent

/-- A member of the name is what is found under it, or missing. -/
theorem IsOrdinary.get_eq (v : Value) : v.get key = (v.find? key).getD .missing :=
  get_of_ne_parentKey hkey.ne_parent v

theorem IsOrdinary.get_ofDoc (d : Doc) :
    (ofDoc .lossless d).get key = .missing ∨
      ∃ d', (ofDoc .lossless d).get key = ofDoc .lossless d' := by
  rw [hkey.get_eq]
  cases hfind : (ofDoc .lossless d).find? key with
  | none => exact .inl rfl
  | some x => exact .inr (hkey.exists_doc_of_find? hfind)

end

end Value

/-! ### What passes for a number -/

/-- A document that passes for a number: a number, or an object that says so under
`isLosslessNumber`, or says nothing of it and has a parent that passes for one. -/
inductive Doc.PassesForNumber : Doc → Prop where
  | number (n : Numeral) : PassesForNumber (.number n)
  | said {members : List (Text × Doc)}
      (h : lastMember? Value.tokenKey members = some (.bool true)) :
      PassesForNumber (.object members)
  | inherited {members : List (Text × Doc)} {p : Doc}
      (hown : lastMember? Value.tokenKey members = none)
      (hparent : parentMember? members = some p) (h : PassesForNumber p) :
      PassesForNumber (.object members)

theorem Value.ofDoc_eq_bool {d : Doc} {b : Bool} (h : Value.ofDoc .lossless d = .bool b) :
    d = .bool b := by
  cases d with
  | bool b' => rw [ofDoc] at h; rw [Value.bool.inj h]
  | null | number n | text t | array items | object members => simp [ofDoc, Reading.number] at h

theorem Doc.PassesForNumber.find? {d : Doc} (h : d.PassesForNumber) :
    (Value.ofDoc .lossless d).find? Value.tokenKey = some (.bool true) := by
  induction h with
  | number n => rfl
  | said h =>
      rw [Value.find?_ofDoc_object Value.isOrdinary_tokenKey.ne_parent, h]
      rfl
  | inherited hown hparent _ ih =>
      rw [Value.find?_ofDoc_object Value.isOrdinary_tokenKey.ne_parent, hown, hparent]
      exact ih

theorem Doc.passesForNumber_of_find? {d : Doc}
    (h : (Value.ofDoc .lossless d).find? Value.tokenKey = some (.bool true)) :
    d.PassesForNumber := by
  match d with
  | .number n => exact .number n
  | .null | .bool _ | .text _ | .array _ =>
      rw [Value.isOrdinary_tokenKey.find?_eq_none] at h
      · cases h
      · nofun
      · nofun
  | .object members =>
      rw [Value.find?_ofDoc_object Value.isOrdinary_tokenKey.ne_parent] at h
      cases hown : lastMember? Value.tokenKey members with
      | some d =>
          rw [hown] at h
          rw [Value.ofDoc_eq_bool (Option.some_inj.1 h)] at hown
          exact .said hown
      | none =>
          rw [hown, Option.map_none, Option.none_or] at h
          cases hparent : parentMember? members with
          | none =>
              rw [hparent, parentValue, Value.isOrdinary_tokenKey.find?_root] at h
              cases h
          | some p =>
              -- the parent is one of the members, so it is smaller than the object
              rw [hparent] at h
              exact .inherited hown hparent (passesForNumber_of_find? h)
termination_by sizeOf d
decreasing_by exact sizeOf_parentMember?_lt hparent

/-- **What passes for a number is taken for a number token.** -/
theorem Doc.passesForNumber_iff {d : Doc} :
    d.PassesForNumber ↔ (Value.ofDoc .lossless d).find? Value.tokenKey = some (.bool true) :=
  ⟨Doc.PassesForNumber.find?, Doc.passesForNumber_of_find?⟩

end Json

end WireCodec
