import WireCodec.Proofs.Json.Inheritance

/-
**What documents have under a name.**

A member is looked up in an object, then in the document that is its parent, and so on to the last
document of the chain.  What is not found among the documents is asked of the root that the last
of them has behind it: an array and a number have one of their own, an object without a parent has
that of the objects, and null has none.

Main definitions:

* `Json.Doc.Has`: a document has another one under a name, itself or by its parents;
* `Json.Doc.Omits`: a document has none under a name;
* `Json.Doc.EndsIn`: the last document of the chain of parents.

Main results:

* `Json.Doc.Has.find?`: what a document has is found in its value;
* `Json.Doc.EndsIn.find?`: what a document omits is asked of the root at the end of the chain;
* `Json.Value.IsOrdinary.find?_eq_none_iff`: no root answers to an ordinary name;
* `Json.Value.IsOrdinary.supplies_iff`: under an ordinary name a document supplies what it has.
-/

set_option relaxedAutoImplicit false
set_option autoImplicit false

namespace WireCodec

namespace Json

namespace Doc

/-! ### Names -/

/-- A document has another one under a name: an object in the last member of the key or by its
parent, an array at its places, and a number its text and that it is one. -/
inductive Has (key : Text) : Doc → Doc → Prop where
  | own {members : List (Text × Doc)} {x : Doc} (h : lastMember? key members = some x) :
      Has key (.object members) x
  | inherited {members : List (Text × Doc)} {p x : Doc} (hown : lastMember? key members = none)
      (hparent : parentMember? members = some p) (h : Has key p x) : Has key (.object members) x
  | item {items : List Doc} {i : Nat} {x : Doc} (hi : Value.place? key items.length = some i)
      (h : items[i]? = some x) : Has key (.array items) x
  | mark {n : Numeral} (h : key = Value.tokenKey) : Has key (.number n) (.bool true)
  | text {n : Numeral} (h : key = Value.valueKey) : Has key (.number n) (.text n.text)

/-- A document has nothing under a name. -/
def Omits (d : Doc) (key : Text) : Prop := ∀ x, ¬ d.Has key x

/-- The last document of the chain of parents: the first one that is no object or has no parent
among the documents. -/
inductive EndsIn : Doc → Doc → Prop where
  | self {d : Doc} (h : ∀ members, d = .object members → parentMember? members = none) :
      EndsIn d d
  | parent {members : List (Text × Doc)} {p e : Doc} (hparent : parentMember? members = some p)
      (h : EndsIn p e) : EndsIn (.object members) e

theorem exists_endsIn (d : Doc) : ∃ e, d.EndsIn e := by
  match d with
  | .null | .bool _ | .number _ | .text _ | .array _ => exact ⟨_, .self nofun⟩
  | .object members =>
      cases hparent : parentMember? members with
      | none =>
          refine ⟨_, .self fun members' h => ?_⟩
          rw [← Doc.object.inj h, hparent]
      | some p =>
          obtain ⟨e, he⟩ := exists_endsIn p
          exact ⟨e, .parent hparent he⟩
termination_by sizeOf d
decreasing_by exact sizeOf_parentMember?_lt hparent

theorem EndsIn.parentMember?_eq_none {d : Doc} {members : List (Text × Doc)}
    (h : d.EndsIn (.object members)) : parentMember? members = none := by
  generalize he : Doc.object members = e at h
  induction h with
  | self h => exact h members he.symm
  | parent _ _ ih => exact ih he

/-- The parents of an object are no texts and no truth values. -/
theorem EndsIn.canBeParent {d e : Doc} (h : d.EndsIn e) (hd : d.canBeParent = true) :
    e.canBeParent = true := by
  induction h with
  | self => exact hd
  | parent hparent _ ih => exact ih (mem_of_parentMember? hparent).2

section

variable {key : Text} {members : List (Text × Doc)}

theorem Omits.lastMember? (h : (Doc.object members).Omits key) :
    Json.lastMember? key members = none := by
  cases hlast : Json.lastMember? key members with
  | none => rfl
  | some x => exact absurd (.own hlast) (h x)

theorem Omits.of_parent {p : Doc} (h : (Doc.object members).Omits key)
    (hparent : parentMember? members = some p) : p.Omits key :=
  fun x hx => h x (.inherited h.lastMember? hparent hx)

theorem EndsIn.omits {d e : Doc} (hend : d.EndsIn e) (h : d.Omits key) : e.Omits key := by
  induction hend with
  | self => exact h
  | parent hparent _ ih => exact ih (h.of_parent hparent)

/-- What ends in a number has something in the place of its text. -/
theorem EndsIn.exists_has_value {d : Doc} {n : Numeral} (h : d.EndsIn (.number n)) :
    ∃ x, d.Has Value.valueKey x := by
  by_contra hnone
  have homits : d.Omits Value.valueKey := fun x hx => hnone ⟨x, hx⟩
  exact h.omits homits _ (.text rfl)

/-- What a document has is smaller, apart from what a number has. -/
theorem Has.sizeOf_lt {d x : Doc} (h : d.Has key x) :
    sizeOf x < sizeOf d ∨ x = .bool true ∨ ∃ t, x = .text t := by
  induction h with
  | own hlast =>
      have hlt := List.sizeOf_lt_of_mem (mem_of_lastMember? hlast)
      rw [Prod.mk.sizeOf_spec] at hlt
      rw [Doc.object.sizeOf_spec]
      exact .inl (by omega)
  | inherited _ hparent _ ih =>
      have hlt := sizeOf_parentMember?_lt hparent
      exact ih.imp_left fun hx => by omega
  | item _ hitem =>
      have hlt := List.sizeOf_lt_of_mem (List.mem_of_getElem? hitem)
      rw [Doc.array.sizeOf_spec]
      exact .inl (by omega)
  | mark => exact .inr (.inl rfl)
  | text => exact .inr (.inr ⟨_, rfl⟩)

end

/-! ### Their values -/

section

variable {key : Text} (hkey : key ≠ Value.parentKey)
include hkey

/-- **What a document has is found in its value.** -/
theorem Has.find? {d x : Doc} (h : d.Has key x) :
    (Value.ofDoc .lossless d).find? key = some (Value.ofDoc .lossless x) := by
  induction h with
  | own hlast =>
      rw [Value.find?_ofDoc_object hkey, hlast]
      rfl
  | inherited hown hparent _ ih =>
      rw [Value.find?_ofDoc_object hkey, hown, hparent]
      exact ih
  | @item items i x hi hitem =>
      have hlength : key ≠ Value.lengthKey := by
        rintro rfl
        cases hi
      rw [Value.ofDoc, Value.find?_array, Value.own?, if_neg hlength,
        Value.ofItems_eq_map, List.length_map, hi, Option.bind_some, List.getElem?_map, hitem]
      rfl
  | mark hmark =>
      rw [hmark]
      rfl
  | text htext =>
      rw [htext]
      rfl

theorem Has.get_eq {d x : Doc} (h : d.Has key x) :
    (Value.ofDoc .lossless d).get key = Value.ofDoc .lossless x := by
  rw [Value.get_of_ne_parentKey hkey, h.find? hkey, Option.getD_some]

/-- A method is found under a name that the documents of the chain omit. -/
theorem omits_of_method {d : Doc} {owner : Root}
    (h : (Value.ofDoc .lossless d).find? key = some (.method owner)) : d.Omits key := by
  intro x hx
  rw [hx.find? hkey] at h
  exact Value.ofDoc_ne_method .lossless x owner (Option.some_inj.1 h)

/-- **What a document omits is asked of the root at the end of the chain.** -/
theorem EndsIn.find? {d e : Doc} (hend : d.EndsIn e) (h : d.Omits key) :
    (Value.ofDoc .lossless d).find? key = (Value.ofDoc .lossless e).find? key := by
  induction hend with
  | self => rfl
  | parent hparent _ ih =>
      rw [Value.find?_ofDoc_object hkey, h.lastMember?, hparent]
      exact ih (h.of_parent hparent)

/-- An object at the end of the chain has the root of the objects behind it. -/
theorem EndsIn.find?_root {d : Doc} {members : List (Text × Doc)}
    (hend : d.EndsIn (.object members)) (h : d.Omits key) :
    (Value.ofDoc .lossless d).find? key = (Value.root .object).find? key := by
  rw [hend.find? hkey h, Value.find?_ofDoc_object hkey, (hend.omits h).lastMember?,
    hend.parentMember?_eq_none]
  rfl

/-- A name under which a document has another one is among the keys of the chain. -/
theorem Has.mem_chainKeys {d x : Doc} (h : d.Has key x) :
    key ∈ (Value.ofDoc .lossless d).chainKeys := by
  induction h with
  | @own members x hlast =>
      rw [Value.ofDoc_object, Value.chainKeys]
      refine List.mem_append_left _ ?_
      have hlookup :=
        Value.lookup_ofMembers (r := .lossless) [] (fun _ => hkey) (.root .object) members
      by_contra hnone
      have hall : ∀ m ∈ (Value.ofMembers .lossless ([], .root .object) members).1, key != m.1 := by
        intro m hm
        rw [bne_iff_ne]
        rintro rfl
        exact hnone (List.mem_map_of_mem hm)
      rw [List.lookup_eq_none_iff.2 hall, hlast] at hlookup
      cases hlookup
  | inherited _ hparent _ ih =>
      rw [Value.ofDoc_object, hparent]
      exact List.mem_append_right _ ih
  | item hi =>
      obtain ⟨hlt, htext⟩ := Value.place?_eq_some_iff.1 hi
      rw [Value.ofDoc, Value.chainKeys.eq_def]
      refine List.mem_map.2 ⟨_, List.mem_range.2 ?_, htext⟩
      rw [Value.ofItems_eq_map, List.length_map]
      exact hlt
  | mark hmark => exact List.mem_cons.2 (.inl hmark)
  | text htext => exact List.mem_cons_of_mem _ (List.mem_cons.2 (.inl htext))

end

end Doc

namespace Value

/-! ### Ordinary names -/

section

variable {key : Text} (hkey : IsOrdinary key)
include hkey

/-- **No root answers to an ordinary name.** -/
theorem IsOrdinary.find?_eq_none_iff {d : Doc} :
    (ofDoc .lossless d).find? key = none ↔ d.Omits key := by
  constructor
  · intro h x hx
    rw [hx.find? hkey.ne_parent] at h
    cases h
  · intro h
    obtain ⟨e, he⟩ := d.exists_endsIn
    rw [he.find? hkey.ne_parent h]
    have homits := he.omits h
    cases e with
    | null | bool | text | array =>
        refine hkey.find?_eq_none (fun members h => ?_) (fun n h => ?_)
        · cases h
        · cases h
    | object members =>
        rw [find?_ofDoc_object hkey.ne_parent, homits.lastMember?, he.parentMember?_eq_none]
        exact hkey.find?_root .object
    | number n =>
        have htoken : key ≠ tokenKey := fun heq => homits _ (.mark heq)
        have htext : key ≠ valueKey := fun heq => homits _ (.text heq)
        rw [ofDoc, Reading.number, find?_token, own?, if_neg htoken, if_neg htext]
        exact hkey.supplied?_root .token

/-- Under an ordinary name a document supplies what it has. -/
theorem IsOrdinary.supplies_iff {d : Doc} : d.Supplies key ↔ ∃ x, d.Has key x ∧ x ≠ .null := by
  constructor
  · intro h
    induction h with
    | own hlast hx => exact ⟨_, .own hlast, hx⟩
    | inherited hown hparent _ ih =>
        obtain ⟨x, hx, hne⟩ := ih
        exact ⟨x, .inherited hown hparent hx, hne⟩
    | method _ _ hmethod => exact absurd hmethod (hkey.not_mem_methods .object)
    | item hi hitem hx => exact ⟨_, .item hi hitem, hx⟩
    | array hsupplied =>
        rcases hsupplied with hlength | hmethod | hmethod
        · exact absurd hlength hkey.ne_length
        · exact absurd hmethod (hkey.not_mem_methods .array)
        · exact absurd hmethod (hkey.not_mem_methods .object)
    | number hsupplied =>
        rcases hsupplied with hmark | htext | hmethod | hmethod
        · exact ⟨_, .mark hmark, nofun⟩
        · exact ⟨_, .text htext, nofun⟩
        · exact absurd hmethod (hkey.not_mem_methods .token)
        · exact absurd hmethod (hkey.not_mem_methods .object)
  · rintro ⟨x, hx, hne⟩
    induction hx with
    | own hlast => exact .own hlast hne
    | inherited hown hparent _ ih => exact .inherited hown hparent (ih hne)
    | item hi hitem => exact .item hi hitem hne
    | mark hmark => exact .number (.inl hmark)
    | text htext => exact .number (.inr (.inl htext))

/-- A member of an ordinary name is what the document has, or missing. -/
theorem IsOrdinary.get_cases (d : Doc) :
    (∃ x, d.Has key x ∧ (ofDoc .lossless d).get key = ofDoc .lossless x) ∨
      d.Omits key ∧ (ofDoc .lossless d).get key = .missing := by
  by_cases h : d.Omits key
  · refine .inr ⟨h, ?_⟩
    rw [hkey.get_eq, hkey.find?_eq_none_iff.2 h]
    rfl
  · obtain ⟨x, hx⟩ := not_forall_not.1 h
    exact .inl ⟨x, hx, hx.get_eq hkey.ne_parent⟩

end

end Value

end Json

end WireCodec
