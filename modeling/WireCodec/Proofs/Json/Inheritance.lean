import Mathlib.Data.List.Basic
import WireCodec.Proofs.Decimal
import WireCodec.Proofs.Json.Reading

/-
**What an object has itself and what it inherits.**

A member that an object does not have itself is looked up in its parent.  So an object can supply
a name that none of its members has: in the plain reading these are the names of the methods of
all objects, and in the lossless reading whatever the documents under `__proto__` supply as well.

Main definitions:

* `Json.Unwritten`: no member has the key, or the last that has it is null;
* `Json.Value.Lacks`: a value has nothing but null under a name;
* `Json.Doc.Supplies`: a document has something else than null under a name, itself or by its
  parents;
* `Json.Inherits`: an object has something under a name that none of its members has.

Main results:

* `Json.Value.lacks_iff_not_supplies`: what a document supplies is found in its value;
* `Json.Value.lacks_ofDoc_iff`: an object lacks what is not written unless it inherits it;
* `Json.not_inherits_of_isOrdinary`: an ordinary name is inherited only from `__proto__`.
-/

set_option relaxedAutoImplicit false
set_option autoImplicit false

namespace WireCodec

namespace Json

/-! ### Members that are not written -/

theorem lastMember?_eq_none_iff {key : Text} {members : List (Text × Doc)} :
    lastMember? key members = none ↔ ∀ m ∈ members, m.1 ≠ key := by
  rw [lastMember?, List.lookup_eq_none_iff]
  constructor
  · intro h m hm
    have hne := h m (List.mem_reverse.2 hm)
    exact Ne.symm (bne_iff_ne.1 hne)
  · intro h m hm
    exact bne_iff_ne.2 (Ne.symm (h m (List.mem_reverse.1 hm)))

/-- After the last member of a key there is no other of the key. -/
theorem exists_split_of_lastMember? {key : Text} {members : List (Text × Doc)} {d : Doc}
    (h : lastMember? key members = some d) :
    ∃ before after, members = before ++ (key, d) :: after ∧ ∀ m ∈ after, m.1 ≠ key := by
  induction members with
  | nil => cases h
  | cons m rest ih =>
      rw [lastMember?_cons] at h
      cases hrest : lastMember? key rest with
      | some d' =>
          rw [hrest, Option.some_or] at h
          obtain ⟨before, after, rfl, hafter⟩ := ih (hrest.trans h)
          exact ⟨m :: before, after, rfl, hafter⟩
      | none =>
          rw [hrest, Option.none_or] at h
          split at h
          · next hkey =>
              have hm : m = (key, d) := Prod.ext hkey.symm (Option.some_inj.1 h)
              exact ⟨[], rest, by rw [hm]; rfl, lastMember?_eq_none_iff.1 hrest⟩
          · cases h

theorem mem_of_lastMember? {key : Text} {members : List (Text × Doc)} {d : Doc}
    (h : lastMember? key members = some d) : (key, d) ∈ members := by
  obtain ⟨before, after, rfl, -⟩ := exists_split_of_lastMember? h
  exact List.mem_append_right _ List.mem_cons_self

theorem parentMember?_eq_none {members : List (Text × Doc)}
    (h : ∀ m ∈ members, m.1 ≠ Value.parentKey) : parentMember? members = none := by
  rw [Option.eq_none_iff_forall_ne_some]
  intro p hp
  exact h _ (mem_of_parentMember? hp).1 rfl

/-- No member has the key, or the last that has it is null. -/
def Unwritten (key : Text) (members : List (Text × Doc)) : Prop :=
  ∀ d, lastMember? key members = some d → d = .null

theorem unwritten_or_exists (key : Text) (members : List (Text × Doc)) :
    Unwritten key members ∨ ∃ d, lastMember? key members = some d ∧ d ≠ .null := by
  cases hlast : lastMember? key members with
  | none => exact .inl fun d hd => by rw [hlast] at hd; cases hd
  | some d =>
      by_cases hnull : d = .null
      · refine .inl fun d' hd' => ?_
        rw [← Option.some_inj.1 (hlast.symm.trans hd'), hnull]
      · exact .inr ⟨d, rfl, hnull⟩

namespace Value

/-- A value has nothing but null under a name. -/
def Lacks (v : Value) (key : Text) : Prop := v.get key = .missing ∨ v.get key = .null

theorem ofDoc_eq_null {r : Reading} {d : Doc} (h : ofDoc r d = .null) : d = .null := by
  cases d with
  | null => rfl
  | number n => cases r <;> cases h
  | bool | text | array | object => simp [ofDoc] at h

theorem ofDoc_eq_text {r : Reading} {d : Doc} {t : Text} (h : ofDoc r d = .text t) :
    d = .text t := by
  cases d with
  | text t' => rw [ofDoc] at h; rw [Value.text.inj h]
  | number n => cases r <;> cases h
  | null | bool | array | object => simp [ofDoc] at h

theorem ofDoc_ne_missing (r : Reading) (d : Doc) : ofDoc r d ≠ .missing := by
  cases d with
  | number n => cases r <;> nofun
  | null | bool | text | array | object => simp [ofDoc]

theorem ofDoc_ne_method (r : Reading) (d : Doc) (owner : Root) : ofDoc r d ≠ .method owner := by
  cases d with
  | number n => cases r <;> nofun
  | null | bool | text | array | object => simp [ofDoc]

/-- What is found decides. -/
theorem not_lacks_of_find? {v x : Value} {key : Text} (h : v.find? key = some x)
    (hmissing : x ≠ .missing) (hnull : x ≠ .null) : ¬ v.Lacks key := by
  rw [Lacks, get, h]
  exact not_or_intro hmissing hnull

theorem lacks_of_find?_ofDoc {r : Reading} {v : Value} {key : Text} {d : Doc}
    (h : v.find? key = some (ofDoc r d)) : v.Lacks key ↔ d = .null := by
  constructor
  · intro hlacks
    by_contra hd
    exact not_lacks_of_find? h (ofDoc_ne_missing r d) (fun hnull => hd (ofDoc_eq_null hnull)) hlacks
  · rintro rfl
    refine .inr ?_
    rw [get, h]
    rw [ofDoc]

/-- Where nothing is found, only the name of the parent may have a value. -/
theorem lacks_of_find?_none {v : Value} {key : Text} (hkey : key ≠ parentKey)
    (h : v.find? key = none) : v.Lacks key := by
  rw [Lacks, get_of_ne_parentKey hkey, h]
  exact .inl rfl

theorem lacks_congr {v w : Value} {key : Text} (hkey : key ≠ parentKey)
    (h : v.find? key = w.find? key) : v.Lacks key ↔ w.Lacks key := by
  rw [Lacks, Lacks, get_of_ne_parentKey hkey, get_of_ne_parentKey hkey, h]

/-! ### What roots and arrays supply -/

theorem rootOwn?_of_mem {r : Root} {key : Text} (h : key ∈ r.methods) :
    rootOwn? r key = some (.method r) := by
  rw [rootOwn?, if_pos h]

theorem rootOwn?_of_not_mem {r : Root} {key : Text} (h : key ∉ r.methods)
    (hlength : r = .array ∨ r = .text → key ≠ lengthKey) : rootOwn? r key = none := by
  rw [rootOwn?, if_neg h, if_neg]
  rintro ⟨hroot, hkey⟩
  exact hlength hroot hkey

/-- A root and the root of the objects behind it supply their methods. -/
theorem lacks_iff_of_supplied {v : Value} {r : Root} {key : Text} (hkey : key ≠ parentKey)
    (hlength : r = .array ∨ r = .text → key ≠ lengthKey)
    (hfind : v.find? key = supplied? (.root r) key) :
    v.Lacks key ↔ ¬ (key ∈ r.methods ∨ key ∈ Root.object.methods) := by
  have hsupplied : supplied? (.root r) key = (rootOwn? r key).or (rootOwn? .object key) :=
    Option.orElse_eq_or
  rw [hsupplied] at hfind
  by_cases hroot : key ∈ r.methods
  · rw [rootOwn?_of_mem hroot, Option.some_or] at hfind
    exact iff_of_false (not_lacks_of_find? hfind nofun nofun) (not_not_intro (.inl hroot))
  · rw [rootOwn?_of_not_mem hroot hlength, Option.none_or] at hfind
    by_cases hobject : key ∈ Root.object.methods
    · rw [rootOwn?_of_mem hobject] at hfind
      exact iff_of_false (not_lacks_of_find? hfind nofun nofun) (not_not_intro (.inr hobject))
    · rw [rootOwn?_of_not_mem hobject (by simp)] at hfind
      exact iff_of_true (lacks_of_find?_none hkey hfind) (not_or_intro hroot hobject)

/-- The root of the objects supplies its methods and nothing else. -/
theorem lacks_root_object_iff {key : Text} (hkey : key ≠ parentKey) :
    (Value.root .object).Lacks key ↔ key ∉ Root.object.methods := by
  have hfind : (Value.root .object).find? key = supplied? (.root .object) key := by
    have hsupplied : supplied? (.root .object) key =
        (rootOwn? .object key).or (rootOwn? .object key) := Option.orElse_eq_or
    have hnone : supplied? (Value.root .object).parent key = none := rfl
    rw [find?_of_not_object (.root .object) nofun, hsupplied, hnone, Option.or_none, Option.or_self]
    rfl
  rw [lacks_iff_of_supplied hkey (by simp) hfind, or_self]

/-- The name of a method is not written in digits. -/
theorem read?_of_mem_methods {r : Root} {key : Text} (h : key ∈ r.methods) :
    Decimal.read? key = none := by
  have hall : ∀ r : Root, r.methods.all (fun key => (Decimal.read? key).isNone) = true := by
    intro r
    cases r <;> decide +kernel
  exact Option.isNone_iff_eq_none.1 (List.all_eq_true.1 (hall r) key h)

/-- The name of a method is not the name of a place in a list. -/
theorem place?_of_mem_methods {r : Root} {key : Text} (h : key ∈ r.methods) (length : Nat) :
    place? key length = none := by
  rw [place?, read?_of_mem_methods h]

/-- A place is below the length, and its name is written without leading zeros. -/
theorem place?_eq_some_iff {key : Text} {length i : Nat} :
    place? key length = some i ↔ i < length ∧ Decimal.text i = key := by
  rw [place?]
  constructor
  · intro h
    split at h
    · split at h
      · next n _ hn =>
          obtain rfl := Option.some_inj.1 h
          exact hn
      · cases h
    · cases h
  · rintro ⟨hi, rfl⟩
    rw [Decimal.read?_text]
    exact if_pos ⟨hi, rfl⟩

theorem ofItems_eq_map (r : Reading) (items : List Doc) :
    ofItems r items = items.map (ofDoc r) := by
  induction items with
  | nil => rfl
  | cons d rest ih => rw [ofItems, ih, List.map_cons]

/-! ### Objects -/

/-- A member of another key does not count. -/
theorem lookup_ofMembers_of_unused (r : Reading) {key : Text} {ms : List (Text × Doc)}
    (h : ∀ m ∈ ms, m.1 ≠ key) (object : List (Text × Value) × Value) :
    (ofMembers r object ms).1.lookup key = object.1.lookup key := by
  induction ms generalizing object with
  | nil => rfl
  | cons m rest ih =>
      have hne : key ≠ m.1 := Ne.symm (h m List.mem_cons_self)
      rw [ofMembers, ih fun m' hm' => h m' (List.mem_cons_of_mem m hm'), Reading.assign]
      split
      · rfl
      · exact lookup_put_ne hne _ _

/-- Without members under `__proto__` the parent stays. -/
theorem ofMembers_snd_of_unused (r : Reading) {ms : List (Text × Doc)}
    (h : r = .plain ∨ ∀ m ∈ ms, m.1 ≠ parentKey) (object : List (Text × Value) × Value) :
    (ofMembers r object ms).2 = object.2 := by
  induction ms generalizing object with
  | nil => rfl
  | cons m rest ih =>
      have hrest : r = .plain ∨ ∀ m ∈ rest, m.1 ≠ parentKey :=
        h.imp_right fun hms m' hm' => hms m' (List.mem_cons_of_mem m hm')
      have hassign : (r.assign object m.1 (ofDoc r m.2)).2 = object.2 := by
        rw [Reading.assign, if_neg]
        rintro ⟨rfl, hkey, -⟩
        rcases h with hplain | hms
        · cases hplain
        · exact hms m List.mem_cons_self hkey
      rw [ofMembers, ih hrest, hassign]

end Value

/-! ### What a document supplies -/

/-- A document has something else than null under a name: an object in the last member of the key or
by its parent, an array at its places and by the methods of arrays, a number by those of number
tokens. -/
inductive Doc.Supplies (key : Text) : Doc → Prop where
  | own {members : List (Text × Doc)} {d : Doc} (h : lastMember? key members = some d)
      (hd : d ≠ .null) : Supplies key (.object members)
  | inherited {members : List (Text × Doc)} {p : Doc} (hown : lastMember? key members = none)
      (hparent : parentMember? members = some p) (h : Supplies key p) :
      Supplies key (.object members)
  | method {members : List (Text × Doc)} (hown : lastMember? key members = none)
      (hparent : parentMember? members = none) (h : key ∈ Root.object.methods) :
      Supplies key (.object members)
  | item {items : List Doc} {i : Nat} {d : Doc} (hi : Value.place? key items.length = some i)
      (h : items[i]? = some d) (hd : d ≠ .null) : Supplies key (.array items)
  | array {items : List Doc}
      (h : key = Value.lengthKey ∨ key ∈ Root.array.methods ∨ key ∈ Root.object.methods) :
      Supplies key (.array items)
  | number {n : Numeral}
      (h : key = Value.tokenKey ∨ key = Value.valueKey ∨ key ∈ Root.token.methods
        ∨ key ∈ Root.object.methods) : Supplies key (.number n)

namespace Value

section

variable {key : Text} (hkey : key ≠ parentKey)
include hkey

/-- What an array does not have itself it has from the methods of arrays and of objects. -/
theorem lacks_array_iff (items : List Doc) :
    (ofDoc .lossless (.array items)).Lacks key ↔ ¬ (Doc.array items).Supplies key := by
  have hfind := find?_array (items.map (ofDoc .lossless)) key
  have hvalue : ofDoc .lossless (.array items) = .array (items.map (ofDoc .lossless)) := by
    rw [ofDoc, ofItems_eq_map]
  rw [own?, List.length_map] at hfind
  rw [hvalue]
  by_cases hlength : key = lengthKey
  · rw [if_pos hlength, Option.some_or] at hfind
    exact iff_of_false (not_lacks_of_find? hfind (by simp [ofLength]) (by simp [ofLength]))
      (not_not_intro (.array (.inl hlength)))
  · rw [if_neg hlength] at hfind
    cases hplace : place? key items.length with
    | none =>
        rw [hplace] at hfind
        rw [lacks_iff_of_supplied hkey (fun _ => hlength) hfind, not_iff_not]
        constructor
        · intro h
          exact .array (.inr h)
        · intro h
          cases h with
          | item hi => rw [hplace] at hi; cases hi
          | array h => exact h.resolve_left hlength
    | some i =>
        have hlt : i < items.length := (place?_eq_some_iff.1 hplace).1
        have hitem : items[i]? = some items[i] := List.getElem?_eq_getElem hlt
        rw [hplace, Option.bind_some, List.getElem?_map, hitem, Option.map_some,
          Option.some_or] at hfind
        rw [lacks_of_find?_ofDoc hfind]
        constructor
        · intro hnull h
          cases h with
          | item hi h hd =>
              obtain rfl := Option.some_inj.1 (hplace.symm.trans hi)
              exact hd ((Option.some_inj.1 (hitem.symm.trans h)).symm.trans hnull)
          | array h =>
              -- a place is no method
              rcases h with h | h | h
              · exact hlength h
              · rw [place?_of_mem_methods h] at hplace
                cases hplace
              · rw [place?_of_mem_methods h] at hplace
                cases hplace
        · intro h
          by_contra hnull
          exact h (.item hplace hitem hnull)

/-- A number has its two members, and the methods of number tokens and of objects. -/
theorem lacks_number_iff (n : Numeral) :
    (ofDoc .lossless (.number n)).Lacks key ↔ ¬ (Doc.number n).Supplies key := by
  have hfind := find?_token n key
  have hvalue : ofDoc .lossless (.number n) = .token n := by
    rw [ofDoc]
    rfl
  rw [own?] at hfind
  rw [hvalue]
  by_cases htoken : key = tokenKey
  · rw [if_pos htoken, Option.some_or] at hfind
    exact iff_of_false (not_lacks_of_find? hfind (by simp) (by simp))
      (not_not_intro (.number (.inl htoken)))
  · rw [if_neg htoken] at hfind
    by_cases htext : key = valueKey
    · rw [if_pos htext, Option.some_or] at hfind
      exact iff_of_false (not_lacks_of_find? hfind (by simp) (by simp))
        (not_not_intro (.number (.inr (.inl htext))))
    · rw [if_neg htext, Option.none_or] at hfind
      rw [lacks_iff_of_supplied hkey (by simp) hfind, not_iff_not]
      constructor
      · intro h
        exact .number (.inr (.inr h))
      · intro h
        cases h with
        | number h => exact (h.resolve_left htoken).resolve_left htext

/-- **What a document supplies is found in its value.** -/
theorem lacks_iff_not_supplies {d : Doc} (hd : d.canBeParent = true) :
    (ofDoc .lossless d).Lacks key ↔ ¬ d.Supplies key := by
  match d with
  | .null => exact iff_of_true (.inl (get_of_ne_parentKey hkey _)) nofun
  | .bool _ | .text _ => cases hd
  | .number n => exact lacks_number_iff hkey n
  | .array items => exact lacks_array_iff hkey items
  | .object members =>
      have hfind := find?_ofDoc_object hkey members
      cases hown : lastMember? key members with
      | some d =>
          rw [hown, Option.map_some, Option.some_or] at hfind
          rw [lacks_of_find?_ofDoc hfind]
          constructor
          · intro hnull h
            cases h with
            | own h hd => exact hd ((Option.some_inj.1 (hown.symm.trans h)).symm.trans hnull)
            | inherited h | method h => rw [hown] at h; cases h
          · intro h
            by_contra hnull
            exact h (.own hown hnull)
      | none =>
          rw [hown, Option.map_none, Option.none_or] at hfind
          rw [lacks_congr hkey hfind]
          cases hparent : parentMember? members with
          | none =>
              rw [parentValue, lacks_root_object_iff hkey, not_iff_not]
              constructor
              · intro h
                exact .method hown hparent h
              · intro h
                cases h with
                | own h => rw [hown] at h; cases h
                | inherited _ h => rw [hparent] at h; cases h
                | method _ _ h => exact h
          | some p =>
              -- the parent is one of the members, so it is smaller than the object
              have hp := (mem_of_parentMember? hparent).2
              rw [parentValue, lacks_iff_not_supplies hp, not_iff_not]
              constructor
              · intro h
                exact .inherited hown hparent h
              · intro h
                cases h with
                | own h => rw [hown] at h; cases h
                | inherited _ h hs =>
                    rw [Option.some_inj.1 (hparent.symm.trans h)]
                    exact hs
                | method _ h => rw [hparent] at h; cases h
termination_by sizeOf d
decreasing_by exact sizeOf_parentMember?_lt hparent

end

end Value

/-! ### What an object inherits -/

/-- An object has something else than null under a name that none of its members has.  Every object
has a parent; in the plain reading it has the methods of all objects besides, and in the lossless
reading what it supplies as a document. -/
def Inherits (r : Reading) (members : List (Text × Doc)) (key : Text) : Prop :=
  lastMember? key members = none ∧
    (key = Value.parentKey ∨
      match r with
      | .plain => key ∈ Root.object.methods
      | .lossless => (Doc.object members).Supplies key)

theorem Value.IsOrdinary.not_mem_methods {key : Text} (hkey : Value.IsOrdinary key) (r : Root) :
    key ∉ r.methods := by
  intro hmem
  have hroot := hkey.rootOwn r
  rw [Value.rootOwn?_of_mem hmem] at hroot
  cases hroot

/-- Ordinary names are inherited only from what is written under `__proto__`. -/
theorem not_inherits_of_isOrdinary {r : Reading} {members : List (Text × Doc)} {key : Text}
    (hkey : Value.IsOrdinary key) (h : ∀ m ∈ members, m.1 ≠ Value.parentKey) :
    ¬ Inherits r members key := by
  rintro ⟨hown, hparent | hinherits⟩
  · exact hkey.ne_parent hparent
  · cases r with
    | plain => exact hkey.not_mem_methods .object hinherits
    | lossless =>
        cases hinherits with
        | own h => rw [hown] at h; cases h
        | inherited _ hp => rw [parentMember?_eq_none h] at hp; cases hp
        | method _ _ hm => exact hkey.not_mem_methods .object hm

namespace Value

/-- The object that the members make. -/
theorem ofDoc_object_eq (r : Reading) (ms : List (Text × Doc)) :
    ofDoc r (.object ms) = .object (ofMembers r ([], .root .object) ms).1
      (ofMembers r ([], .root .object) ms).2 := by
  rw [ofDoc]

theorem ofMembers_append (r : Reading) (object : List (Text × Value) × Value)
    (ms rest : List (Text × Doc)) :
    ofMembers r object (ms ++ rest) = ofMembers r (ofMembers r object ms) rest := by
  induction ms generalizing object with
  | nil => rfl
  | cons m ms ih => rw [List.cons_append, ofMembers, ofMembers, ih]

/-- As long as the chain of parents reaches the root of the objects, `__proto__` is no member. -/
theorem lookup_parentKey_of_reachesRoot (ms : List (Text × Doc)) :
    (ofMembers .lossless ([], .root .object) ms).2.reachesRoot = true →
      (ofMembers .lossless ([], .root .object) ms).1.lookup parentKey = none := by
  -- induction on the assignments; the statement itself is what each of them keeps
  suffices h : ∀ object : List (Text × Value) × Value,
      (object.2.reachesRoot = true → object.1.lookup parentKey = none) →
      (ofMembers .lossless object ms).2.reachesRoot = true →
      (ofMembers .lossless object ms).1.lookup parentKey = none from h _ fun _ => rfl
  induction ms with
  | nil => exact fun object hobject => hobject
  | cons m rest ih =>
      intro object hobject
      refine ih _ ?_
      rw [Reading.assign]
      split
      · next h => exact fun _ => hobject h.2.2
      · next h =>
          intro hreaches
          have hne : parentKey ≠ m.1 := fun heq => h ⟨rfl, heq.symm, hreaches⟩
          rw [lookup_put_ne hne]
          exact hobject hreaches

/-- The name of the parent is found in every object that does not write it. -/
theorem not_lacks_parentKey {r : Reading} {ms : List (Text × Doc)}
    (h : ∀ m ∈ ms, m.1 ≠ parentKey) : ¬ (ofDoc r (.object ms)).Lacks parentKey := by
  have hparent := ofMembers_snd_of_unused r (.inr h) ([], .root .object)
  have hown := lookup_ofMembers_of_unused r h ([], .root .object)
  have hget : (ofDoc r (.object ms)).get parentKey = .root .object := by
    rw [ofDoc_object_eq, hparent, get, find?, hown]
    rfl
  rw [Lacks, hget]
  simp

theorem lacks_of_lookup_null {own : List (Text × Value)} {parent : Value} {key : Text}
    (h : own.lookup key = some .null) : (Value.object own parent).Lacks key := by
  rw [Lacks, get, find?, h]
  exact .inr rfl

theorem lacks_of_orphan {own : List (Text × Value)} {parent : Value} {key : Text}
    (hown : own.lookup key = none) (hparent : parent = .null) :
    (Value.object own parent).Lacks key := by
  rw [Lacks, get, find?, hown, hparent]
  exact .inl (if_neg fun h => by cases h.2)

/-- An object that writes null for the last value of `__proto__` has no parent or a null member. -/
theorem lacks_parentKey_of_null {r : Reading} {ms : List (Text × Doc)}
    (h : lastMember? parentKey ms = some .null) : (ofDoc r (.object ms)).Lacks parentKey := by
  obtain ⟨before, after, rfl, hafter⟩ := exists_split_of_lastMember? h
  have hown := lookup_ofMembers_of_unused r hafter
  have hparent := ofMembers_snd_of_unused r (.inr hafter)
  rw [ofDoc_object_eq, ofMembers_append, ofMembers, ofDoc]
  by_cases hreaches : r = .lossless ∧ parentKey = parentKey ∧
      (ofMembers r ([], .root .object) before).2.reachesRoot = true
  · -- the member makes null the parent
    refine lacks_of_orphan ?_ ?_
    · rw [hown, Reading.assign, if_pos hreaches]
      obtain ⟨rfl, -, hroot⟩ := hreaches
      exact lookup_parentKey_of_reachesRoot before hroot
    · rw [hparent, Reading.assign, if_pos hreaches]
      rfl
  · refine lacks_of_lookup_null ?_
    rw [hown, Reading.assign, if_neg hreaches, lookup_put_self]

/-- In the plain reading an object has its members and the methods of all objects. -/
theorem find?_ofDoc_plain (ms : List (Text × Doc)) (key : Text) :
    (ofDoc .plain (.object ms)).find? key =
      ((lastMember? key ms).map (ofDoc .plain)).or ((Value.root .object).find? key) := by
  have hkey : Reading.plain = .lossless → key ≠ parentKey := nofun
  rw [ofDoc_object_eq, ofMembers_snd_of_unused .plain (.inl rfl), find?, lookup_ofMembers [] hkey]
  cases lastMember? key ms <;> rfl

/-- **An object lacks what is not written unless it inherits it.** -/
theorem lacks_ofDoc_iff {r : Reading} {ms : List (Text × Doc)} {key : Text}
    (h : Unwritten key ms) : (ofDoc r (.object ms)).Lacks key ↔ ¬ Inherits r ms key := by
  by_cases hkey : key = parentKey
  · subst hkey
    cases hlast : lastMember? parentKey ms with
    | none =>
        have hunused := lastMember?_eq_none_iff.1 hlast
        exact iff_of_false (not_lacks_parentKey hunused) (not_not_intro ⟨hlast, .inl rfl⟩)
    | some d =>
        rw [h d hlast] at hlast
        refine iff_of_true (lacks_parentKey_of_null hlast) fun hinherits => ?_
        rw [hinherits.1] at hlast
        cases hlast
  · cases hlast : lastMember? key ms with
    | some d =>
        -- the member is found, and it is null
        have hfind : (ofDoc r (.object ms)).find? key = some (ofDoc r d) := by
          cases r with
          | lossless => rw [find?_ofDoc_object hkey, hlast]; rfl
          | plain => rw [find?_ofDoc_plain, hlast]; rfl
        refine iff_of_true ((lacks_of_find?_ofDoc hfind).2 (h d hlast)) fun hinherits => ?_
        rw [hinherits.1] at hlast
        cases hlast
    | none =>
        cases r with
        | lossless =>
            rw [lacks_iff_not_supplies hkey rfl, Inherits, hlast]
            simp [hkey]
        | plain =>
            have hfind := find?_ofDoc_plain ms key
            rw [hlast, Option.map_none, Option.none_or] at hfind
            rw [lacks_congr hkey hfind, lacks_root_object_iff hkey, Inherits, hlast]
            simp [hkey]

end Value

end Json

end WireCodec
