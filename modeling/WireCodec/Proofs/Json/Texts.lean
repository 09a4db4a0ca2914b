import WireCodec.Proofs.Json.Joining
import WireCodec.Proofs.Json.Lookup

/-
**Which documents have a text.**

What stands in the place of a number token's text may be any document.  A document that is not
plain is asked for two methods.  A document that writes the name of a method hides it, and what the
methods do depends on the root that the chain of parents ends at: an object has the text of all
objects, an array that of its items, a number that of its token, and an object that ends in null
has neither method.

Main definitions:

* `Json.Doc.isPlain`: null, a truth value or a text;
* `Json.Doc.Becomes`: the value without members that a document is turned into;
* `Json.Doc.HasText`: a document can be turned into a text.

Main results:

* `Json.Doc.becomes_iff`: **what documents become is what their values are turned into**;
* `Json.Doc.toText_eq_ok_iff`, `Json.Doc.not_hasText_iff`: the text of a document, if it has one;
* `Json.Doc.toInteger_of_toText`: what reads as a text of digits reads as an integer.
-/

set_option relaxedAutoImplicit false
set_option autoImplicit false

namespace WireCodec

namespace Json

open Value (Wanted objectText textMethod numberMethod joinMethod lengthKey valueKey tokenNumber)

namespace Doc

/-- Null, a truth value or a text. -/
def isPlain : Doc → Bool
  | .null | .bool _ | .text _ => true
  | .number _ | .array _ | .object _ => false

/-- The value without members that a document is turned into. -/
inductive Becomes : Wanted → Doc → Value → Prop where
  | plain {wanted : Wanted} {d : Doc} (h : d.isPlain = true) :
      Becomes wanted d (Value.ofDoc .lossless d)
  /-- An object has the text of all objects unless it writes the name of the method. -/
  | object {wanted : Wanted} {d : Doc} {members : List (Text × Doc)}
      (hend : d.EndsIn (.object members)) (htext : d.Omits textMethod) :
      Becomes wanted d (.text objectText)
  /-- So has an array that writes the name of the method that joins its items. -/
  | unjoined {wanted : Wanted} {d : Doc} {items : List Doc} (hend : d.EndsIn (.array items))
      (htext : d.Omits textMethod) (hjoin : ¬ d.Omits joinMethod) :
      Becomes wanted d (.text objectText)
  /-- The items of an array are joined up to its length, which may be written in its place.  Null
  and what is missing have no text among them. -/
  | joined {wanted : Wanted} {d : Doc} {items : List Doc} {x : Value} {length : Nat}
      {parts : Nat → Value} (hend : d.EndsIn (.array items)) (htext : d.Omits textMethod)
      (hjoin : d.Omits joinMethod)
      (hwritten : ∀ y, d.Has lengthKey y → Becomes .number y x)
      (hcounted : d.Omits lengthKey → x = Value.ofLength items.length)
      (hlength : x.lengthOf = .ok length)
      (hparts : ∀ i < length, ∀ y, d.Has (Decimal.text i) y → y ≠ .null →
        Becomes .text y (parts i))
      (hempty : ∀ i < length, (∀ y, d.Has (Decimal.text i) y → y = .null) → parts i = .text [])
      (hshort : (Json.joined length fun i => (parts i).spell).length ≤ Value.maxTextLength) :
      Becomes wanted d (.text (Json.joined length fun i => (parts i).spell))
  /-- A number has what stands in the place of its text, if that is plain. -/
  | text {wanted : Wanted} {d y : Doc} {n : Numeral} (hend : d.EndsIn (.number n))
      (htext : d.Omits textMethod) (hvalue : d.Has valueKey y) (hplain : y.isPlain = true)
      (hfirst : wanted = .text ∨ ¬ d.Omits numberMethod) :
      Becomes wanted d (Value.ofDoc .lossless y)
  /-- Where a number is wanted, or the other method is hidden, it has the number of this text. -/
  | number {wanted : Wanted} {d : Doc} {n : Numeral} {t : Text} {x : Value}
      (hend : d.EndsIn (.number n)) (hnumber : d.Omits numberMethod)
      (hvalue : d.Has valueKey (.text t)) (hx : tokenNumber t = .ok x)
      (hfirst : wanted = .number ∨ ¬ d.Omits textMethod) : Becomes wanted d x

/-- A document can be turned into a text. -/
def HasText (d : Doc) : Prop := ∃ x, d.Becomes .text x

end Doc

namespace Value

theorem isComposite_ofDoc (d : Doc) : (ofDoc .lossless d).isComposite = !d.isPlain := by
  cases d with
  | null | bool | number | text | array => rfl
  | object members =>
      rw [ofDoc]
      rfl

/-! ### Answers -/

section

variable {simplify : Wanted → Value → Except Misuse Value} {v x : Value} {d : Doc}
  {name name' : Text}

/-- The second of two methods is asked if the first gives nothing. -/
theorem firstAnswer_pair_eq_ok_iff :
    firstAnswer simplify v [name, name'] = .ok x ↔
      answer simplify v name = .ok (some x) ∨
        answer simplify v name = .ok none ∧ answer simplify v name' = .ok (some x) := by
  have hlast : firstAnswer simplify v [name'] = .ok x ↔
      answer simplify v name' = .ok (some x) := by
    cases hanswer : answer simplify v name' with
    | error misuse => simp [firstAnswer_of_error hanswer]
    | ok answered =>
        cases answered with
        | none =>
            rw [firstAnswer_of_none hanswer, firstAnswer]
            simp
        | some y => simp [firstAnswer_of_some hanswer]
  cases hanswer : answer simplify v name with
  | error misuse => simp [firstAnswer_of_error hanswer]
  | ok answered =>
      cases answered with
      | none => simp [firstAnswer_of_none hanswer, hlast]
      | some y => simp [firstAnswer_of_some hanswer]

/-- If the method for numbers gives nothing, the one for texts decides. -/
theorem firstAnswer_methods_of_none (h : answer simplify v numberMethod = .ok none)
    (wanted : Wanted) :
    firstAnswer simplify v wanted.methods = .ok x ↔
      answer simplify v textMethod = .ok (some x) := by
  cases wanted with
  | text =>
      rw [Wanted.methods, firstAnswer_pair_eq_ok_iff, h]
      simp
  | number =>
      rw [Wanted.methods, firstAnswer_pair_eq_ok_iff, h]
      simp

/-- A method whose name is written is hidden. -/
theorem answer_of_has {y : Doc} (hname : name ≠ parentKey) (h : d.Has name y) :
    answer simplify (ofDoc .lossless d) name = .ok none := by
  rw [answer, h.find? hname]
  split
  next owner hmethod => exact absurd (Option.some_inj.1 hmethod) (ofDoc_ne_method .lossless y owner)
  next => rfl

theorem answer_of_method {owner : Root} (h : v.find? name = some (.method owner)) :
    answer simplify v name = call simplify owner name v := by
  rw [answer, h]

/-- Only a token has a method for numbers that answers. -/
theorem call_numberMethod {owner : Root} (h : owner ≠ .token) :
    call simplify owner numberMethod v = .ok none := by
  have hname : ¬ numberMethod = textMethod := by decide
  rw [call.eq_def, if_neg hname]
  cases owner with
  | token => exact absurd rfl h
  | object | array | text | bool | double | integer => rfl

theorem answer_numberMethod_of_ne_token {owner : Root} (howner : owner ≠ .token)
    (h : d.Omits numberMethod → (ofDoc .lossless d).find? numberMethod = some (.method owner)) :
    answer simplify (ofDoc .lossless d) numberMethod = .ok none := by
  by_cases homits : d.Omits numberMethod
  · rw [answer_of_method (h homits), call_numberMethod howner]
  · obtain ⟨y, hy⟩ := not_forall_not.1 homits
    exact answer_of_has (by decide) hy

/-- A method answers if its name is not written and its root answers. -/
theorem answer_eq_ok_some_iff {owner : Root} (hname : name ≠ parentKey)
    (h : d.Omits name → (ofDoc .lossless d).find? name = some (.method owner)) :
    answer simplify (ofDoc .lossless d) name = .ok (some x) ↔
      d.Omits name ∧ call simplify owner name (ofDoc .lossless d) = .ok (some x) := by
  by_cases homits : d.Omits name
  · rw [answer_of_method (h homits), and_iff_right homits]
  · obtain ⟨y, hy⟩ := not_forall_not.1 homits
    rw [answer_of_has hname hy]
    exact iff_of_false nofun fun hanswer => homits hanswer.1

end

/-! ### Objects -/

/-- What ends in null has neither of the methods. -/
theorem simplify_ne_ok_of_endsIn_null {d : Doc} (hend : d.EndsIn .null)
    (hcomposite : (ofDoc .lossless d).isComposite = true) (wanted : Wanted) (x : Value) :
    (ofDoc .lossless d).simplify wanted ≠ .ok x := by
  have hnone : ∀ name ≠ parentKey, answer simplify (ofDoc .lossless d) name = .ok none := by
    intro name hname
    by_cases homits : d.Omits name
    · rw [answer, hend.find? hname homits, ofDoc]
      rfl
    · obtain ⟨y, hy⟩ := not_forall_not.1 homits
      exact answer_of_has hname hy
  rw [simplify_of_composite hcomposite, ne_eq,
    firstAnswer_methods_of_none (hnone numberMethod (by decide)), hnone textMethod (by decide)]
  intro h
  cases h

section

variable {d : Doc} {members : List (Text × Doc)} (hend : d.EndsIn (.object members))
include hend

/-- **An object has the text of all objects**, unless it writes the name of the method. -/
theorem simplify_object_eq_ok_iff {wanted : Wanted} {x : Value}
    (hcomposite : (ofDoc .lossless d).isComposite = true) :
    (ofDoc .lossless d).simplify wanted = .ok x ↔ d.Omits textMethod ∧ .text objectText = x := by
  have htext : d.Omits textMethod →
      (ofDoc .lossless d).find? textMethod = some (.method .object) :=
    fun homits => hend.find?_root (by decide) homits
  have hnumber : d.Omits numberMethod →
      (ofDoc .lossless d).find? numberMethod = some (.method .object) :=
    fun homits => hend.find?_root (by decide) homits
  rw [simplify_of_composite hcomposite,
    firstAnswer_methods_of_none (answer_numberMethod_of_ne_token (by decide) hnumber),
    answer_eq_ok_some_iff (by decide) htext, call.eq_def, if_pos rfl]
  simp

end

/-! ### Arrays -/

section

variable {d : Doc} {items : List Doc} (hend : d.EndsIn (.array items))
include hend

/-- A method of arrays is found unless its name is written. -/
theorem find?_method_of_array {name : Text} {owner : Root} (hname : name ≠ parentKey)
    (hmethod : (Value.array (ofItems .lossless items)).find? name = some (.method owner))
    (h : d.Omits name) : (ofDoc .lossless d).find? name = some (.method owner) := by
  rw [hend.find? hname h, ofDoc, hmethod]

/-- **An array has the text of its items**, unless it writes the name of one of the two methods. -/
theorem simplify_array_eq_ok_iff {wanted : Wanted} {x : Value}
    (hcomposite : (ofDoc .lossless d).isComposite = true) :
    (ofDoc .lossless d).simplify wanted = .ok x ↔ d.Omits textMethod ∧
      (¬ d.Omits joinMethod ∧ .text objectText = x ∨
        d.Omits joinMethod ∧
          ∃ t, joinItems simplify (ofDoc .lossless d) = .ok t ∧ .text t = x) := by
  have htext : d.Omits textMethod →
      (ofDoc .lossless d).find? textMethod = some (.method .array) :=
    find?_method_of_array hend (by decide) rfl
  have hnumber : d.Omits numberMethod →
      (ofDoc .lossless d).find? numberMethod = some (.method .object) :=
    find?_method_of_array hend (by decide) rfl
  rw [simplify_of_composite hcomposite,
    firstAnswer_methods_of_none (answer_numberMethod_of_ne_token (by decide) hnumber),
    answer_eq_ok_some_iff (by decide) htext, call.eq_def, if_pos rfl, and_congr_right_iff]
  intro _
  simp only
  by_cases hjoin : d.Omits joinMethod
  · have hfind : (ofDoc .lossless d).find? joinMethod = some (.method .array) :=
      find?_method_of_array hend (by decide) rfl hjoin
    rw [hfind]
    simp [hjoin, map_eq_ok_iff]
  · obtain ⟨y, hy⟩ := not_forall_not.1 hjoin
    have hfind := hy.find? (by decide)
    have hmethod : ∀ owner, ofDoc .lossless y ≠ .method owner := ofDoc_ne_method .lossless y
    rw [hfind]
    split
    next owner heq => exact absurd (Option.some_inj.1 heq) (hmethod owner)
    next => simp [hjoin]

end

/-! ### Numbers -/

section

variable {d : Doc} {n : Numeral} (hend : d.EndsIn (.number n))
include hend

/-- A method of number tokens is found unless its name is written. -/
theorem find?_method_of_number {name : Text} (hname : name ≠ parentKey)
    (hmethod : (Value.token n).find? name = some (.method .token)) (h : d.Omits name) :
    (ofDoc .lossless d).find? name = some (.method .token) := by
  rw [hend.find? hname h, ofDoc, Reading.number, hmethod]

variable {simplify : Wanted → Value → Except Misuse Value} {x : Value}

/-- The method for texts of a number answers with what stands in the place of its text. -/
theorem answer_textMethod_of_number :
    answer simplify (ofDoc .lossless d) textMethod = .ok (some x) ↔ d.Omits textMethod ∧
      ∃ y, d.Has valueKey y ∧ y.isPlain = true ∧ ofDoc .lossless y = x := by
  have htext : d.Omits textMethod → (ofDoc .lossless d).find? textMethod = some (.method .token) :=
    find?_method_of_number hend (by decide) rfl
  rw [answer_eq_ok_some_iff (by decide) htext, and_congr_right_iff]
  intro _
  constructor
  · intro hcall
    obtain ⟨hget, hplain⟩ := get_valueKey_of_call hcall
    obtain ⟨y, hy⟩ := hend.exists_has_value
    rw [hy.get_eq (by decide)] at hget
    rw [← hget, isComposite_ofDoc] at hplain
    exact ⟨y, hy, by simpa using hplain, hget⟩
  · rintro ⟨y, hy, hplain, rfl⟩
    rw [call.eq_def, if_pos rfl]
    simp only [hy.get_eq (show valueKey ≠ parentKey by decide)]
    rw [isComposite_ofDoc, hplain]
    rfl

/-- The method for numbers of a number answers with the number of its text. -/
theorem answer_numberMethod_of_number :
    answer simplify (ofDoc .lossless d) numberMethod = .ok (some x) ↔ d.Omits numberMethod ∧
      ∃ t, d.Has valueKey (.text t) ∧ tokenNumber t = .ok x := by
  have hnumber : d.Omits numberMethod →
      (ofDoc .lossless d).find? numberMethod = some (.method .token) :=
    find?_method_of_number hend (by decide) rfl
  rw [answer_eq_ok_some_iff (by decide) hnumber, and_congr_right_iff]
  intro _
  constructor
  · intro hcall
    obtain ⟨-, t, hget, hx⟩ := exists_token_of_call hcall
    obtain ⟨y, hy⟩ := hend.exists_has_value
    rw [hy.get_eq (by decide)] at hget
    rw [ofDoc_eq_text hget] at hy
    exact ⟨t, hy, hx⟩
  · rintro ⟨t, ht, hx⟩
    have hget : (ofDoc .lossless d).get valueKey = .text t := by
      rw [ht.get_eq (by decide), ofDoc]
    rw [call.eq_def, if_neg (by decide)]
    simp only [hget, hx]
    rfl

/-- The method for numbers of a number gives nothing only if it is hidden. -/
theorem answer_numberMethod_eq_none_iff :
    answer simplify (ofDoc .lossless d) numberMethod = .ok none ↔ ¬ d.Omits numberMethod := by
  constructor
  · intro hanswer homits
    have hfind : (ofDoc .lossless d).find? numberMethod = some (.method .token) :=
      find?_method_of_number hend (by decide) rfl homits
    rw [answer_of_method hfind, call.eq_def, if_neg (by decide)] at hanswer
    simp only at hanswer
    split at hanswer
    · obtain ⟨_, -, hsome⟩ := exists_of_map_eq_ok hanswer
      cases hsome
    · cases hanswer
    · obtain ⟨_, -, herror⟩ := exists_of_bind_eq_ok hanswer
      cases herror
  · intro h
    obtain ⟨y, hy⟩ := not_forall_not.1 h
    exact answer_of_has (by decide) hy

/-- **A number has what stands in the place of its text or the number of this text**, in the order
of the methods. -/
theorem simplify_number_eq_ok_iff {wanted : Wanted}
    (hcomposite : (ofDoc .lossless d).isComposite = true) :
    (ofDoc .lossless d).simplify wanted = .ok x ↔
      (d.Omits textMethod ∧ (∃ y, d.Has valueKey y ∧ y.isPlain = true ∧ ofDoc .lossless y = x) ∧
        (wanted = .text ∨ ¬ d.Omits numberMethod)) ∨
      (d.Omits numberMethod ∧ (∃ t, d.Has valueKey (.text t) ∧ tokenNumber t = .ok x) ∧
        (wanted = .number ∨ ¬ d.Omits textMethod)) := by
  rw [simplify_of_composite hcomposite]
  cases wanted with
  | text =>
      rw [Wanted.methods, firstAnswer_pair_eq_ok_iff, answer_textMethod_of_number hend,
        answer_numberMethod_of_number hend]
      constructor
      · rintro (⟨homits, hy⟩ | ⟨hnone, homits, t, ht, hx⟩)
        · exact .inl ⟨homits, hy, .inl rfl⟩
        · refine .inr ⟨homits, ⟨t, ht, hx⟩, .inr fun homits' => ?_⟩
          -- the method for texts would have answered with the text
          cases hnone.symm.trans ((answer_textMethod_of_number hend).2 ⟨homits', _, ht, rfl, rfl⟩)
      · rintro (⟨homits, hy, -⟩ | ⟨homits, hnumber, hhidden⟩)
        · exact .inl ⟨homits, hy⟩
        · obtain ⟨y, hy⟩ := not_forall_not.1 (hhidden.resolve_left nofun)
          exact .inr ⟨answer_of_has (by decide) hy, homits, hnumber⟩
  | number =>
      rw [Wanted.methods, firstAnswer_pair_eq_ok_iff, answer_textMethod_of_number hend,
        answer_numberMethod_of_number hend, answer_numberMethod_eq_none_iff hend]
      constructor
      · rintro (⟨homits, hx⟩ | ⟨hhidden, homits, hy⟩)
        · exact .inr ⟨homits, hx, .inl rfl⟩
        · exact .inl ⟨homits, hy, .inr hhidden⟩
      · rintro (⟨homits, hy, hhidden⟩ | ⟨homits, hx, -⟩)
        · exact .inr ⟨hhidden.resolve_left nofun, homits, hy⟩
        · exact .inl ⟨homits, hx⟩

end

end Value

namespace Doc

/-! ### What documents become -/

/-- An end of a chain of parents is not plain, unless the document is or ends in null. -/
theorem EndsIn.isPlain_eq_false {d e : Doc} (h : d.EndsIn e) (he : e.isPlain = false) :
    d.isPlain = false := by
  cases h with
  | self => exact he
  | parent => rfl

theorem Becomes.simplify_eq {wanted : Wanted} {d : Doc} {x : Value} (h : d.Becomes wanted x) :
    (Value.ofDoc .lossless d).simplify wanted = .ok x := by
  have hcomposite : ∀ {d e : Doc}, d.EndsIn e → e.isPlain = false →
      (Value.ofDoc .lossless d).isComposite = true := by
    intro d e hend he
    rw [Value.isComposite_ofDoc, hend.isPlain_eq_false he]
    rfl
  induction h with
  | plain h => exact Value.simplify_of_plain (by rw [Value.isComposite_ofDoc, h]; rfl) _
  | object hend htext =>
      exact (Value.simplify_object_eq_ok_iff hend (hcomposite hend rfl)).2 ⟨htext, rfl⟩
  | unjoined hend htext hjoin =>
      exact (Value.simplify_array_eq_ok_iff hend (hcomposite hend rfl)).2
        ⟨htext, .inl ⟨hjoin, rfl⟩⟩
  | @joined wanted d items x length parts hend htext hjoin _ hcounted hlength _ hempty hshort
      ihwritten ihparts =>
      have hx : ((Value.ofDoc .lossless d).get lengthKey).simplify .number = .ok x := by
        by_cases homits : d.Omits lengthKey
        · rw [Value.get_length_of_omits hend homits, hcounted homits]
          rfl
        · obtain ⟨y, hy⟩ := not_forall_not.1 homits
          rw [hy.get_eq (by decide), ihwritten y hy]
      have hjoined := (Value.joinItems_ofDoc_eq_ok_iff hend).2
        ⟨x, length, parts, hx, hlength, ihparts, hempty, hshort, rfl⟩
      exact (Value.simplify_array_eq_ok_iff hend (hcomposite hend rfl)).2
        ⟨htext, .inr ⟨hjoin, _, hjoined, rfl⟩⟩
  | text hend htext hvalue hplain hfirst =>
      exact (Value.simplify_number_eq_ok_iff hend (hcomposite hend rfl)).2
        (.inl ⟨htext, ⟨_, hvalue, hplain, rfl⟩, hfirst⟩)
  | number hend hnumber hvalue hx hfirst =>
      exact (Value.simplify_number_eq_ok_iff hend (hcomposite hend rfl)).2
        (.inr ⟨hnumber, ⟨_, hvalue, hx⟩, hfirst⟩)

theorem becomes_of_simplify_eq {wanted : Wanted} {d : Doc} {x : Value}
    (h : (Value.ofDoc .lossless d).simplify wanted = .ok x) : d.Becomes wanted x := by
  cases hplain : d.isPlain with
  | true =>
      rw [Value.simplify_of_plain (by rw [Value.isComposite_ofDoc, hplain]; rfl)] at h
      rw [← Except.ok.inj h]
      exact .plain hplain
  | false =>
      have hcomposite : (Value.ofDoc .lossless d).isComposite = true := by
        rw [Value.isComposite_ofDoc, hplain]
        rfl
      -- what a document has is smaller or plain, so it becomes what its value is turned into
      have hbecomes : ∀ {key y wanted' x'}, d.Has key y →
          (Value.ofDoc .lossless y).simplify wanted' = .ok x' → y.Becomes wanted' x' := by
        intro key y wanted' x' hy hsimplify
        rcases hy.sizeOf_lt with hlt | rfl | ⟨t, rfl⟩
        · exact becomes_of_simplify_eq hsimplify
        · rw [← Except.ok.inj hsimplify]
          exact .plain rfl
        · rw [← Except.ok.inj hsimplify]
          exact .plain rfl
      have hparent : d.canBeParent = true := by
        cases d with
        | null | bool | text => cases hplain
        | number | array | object => rfl
      obtain ⟨e, hend⟩ := d.exists_endsIn
      cases e with
      | null => exact absurd h (Value.simplify_ne_ok_of_endsIn_null hend hcomposite _ _)
      | bool | text => cases hend.canBeParent hparent
      | object members =>
          obtain ⟨htext, rfl⟩ := (Value.simplify_object_eq_ok_iff hend hcomposite).1 h
          exact .object hend htext
      | array items =>
          obtain ⟨htext, ⟨hjoin, rfl⟩ | ⟨hjoin, t, ht, rfl⟩⟩ :=
            (Value.simplify_array_eq_ok_iff hend hcomposite).1 h
          · exact .unjoined hend htext hjoin
          · obtain ⟨x, length, parts, hx, hlength, hparts, hempty, hshort, rfl⟩ :=
              (Value.joinItems_ofDoc_eq_ok_iff hend).1 ht
            refine .joined hend htext hjoin ?_ ?_ hlength ?_ hempty hshort
            · intro y hy
              rw [hy.get_eq (by decide)] at hx
              exact hbecomes hy hx
            · intro homits
              rw [Value.get_length_of_omits hend homits] at hx
              exact (Except.ok.inj hx).symm
            · intro i hi y hy hne
              exact hbecomes hy (hparts i hi y hy hne)
      | number n =>
          rcases (Value.simplify_number_eq_ok_iff hend hcomposite).1 h with
            ⟨htext, ⟨y, hy, hplain', rfl⟩, hfirst⟩ | ⟨hnumber, ⟨t, ht, hx⟩, hfirst⟩
          · exact .text hend htext hy hplain' hfirst
          · exact .number hend hnumber ht hx hfirst
termination_by sizeOf d

/-- **What documents become is what their values are turned into.** -/
theorem becomes_iff {wanted : Wanted} {d : Doc} {x : Value} :
    d.Becomes wanted x ↔ (Value.ofDoc .lossless d).simplify wanted = .ok x :=
  ⟨Becomes.simplify_eq, becomes_of_simplify_eq⟩

theorem toText_eq_ok_iff {d : Doc} {t : Text} :
    (Value.ofDoc .lossless d).toText = .ok t ↔ ∃ x, d.Becomes .text x ∧ x.spell = t := by
  rw [Value.toText, map_eq_ok_iff]
  simp only [becomes_iff]

/-- A document has no text if its value cannot be turned into one. -/
theorem not_hasText_iff {d : Doc} :
    ¬ d.HasText ↔ ∃ m, (Value.ofDoc .lossless d).toText = .error m := by
  cases htext : (Value.ofDoc .lossless d).toText with
  | ok t =>
      obtain ⟨x, hx, -⟩ := toText_eq_ok_iff.1 htext
      exact iff_of_false (fun h => h ⟨x, hx⟩) nofun
  | error m =>
      refine iff_of_true (fun ⟨x, hx⟩ => ?_) ⟨m, rfl⟩
      rw [toText_eq_ok_iff.2 ⟨x, hx, rfl⟩] at htext
      cases htext

/-- What becomes a text of digits becomes a number. -/
theorem Becomes.exists_number {d : Doc} {x : Value} {n : Nat} (h : d.Becomes .text x)
    (hread : Decimal.read? x.spell = some n) : ∃ y, d.Becomes .number y := by
  cases h with
  | plain hplain => exact ⟨_, .plain hplain⟩
  | object hend htext => exact ⟨_, .object hend htext⟩
  | unjoined hend htext hjoin => exact ⟨_, .unjoined hend htext hjoin⟩
  | joined hend htext hjoin hwritten hcounted hlength hparts hempty hshort =>
      exact ⟨_, .joined hend htext hjoin hwritten hcounted hlength hparts hempty hshort⟩
  | number hend hnumber hvalue hx => exact ⟨_, .number hend hnumber hvalue hx (.inl rfl)⟩
  | @text _ _ y _ hend htext hvalue hplain =>
      by_cases hnumber : d.Omits numberMethod
      · -- a plain document of digits is a text, and its number is found
        cases y with
        | text t =>
            obtain ⟨z, hz⟩ := Value.exists_tokenNumber hread
            exact ⟨z, .number hend hnumber hvalue hz (.inl rfl)⟩
        | null => cases hread
        | bool b => cases b <;> cases hread
        | number | array | object => cases hplain
      · exact ⟨_, .text hend htext hvalue hplain (.inr hnumber)⟩

/-- **What reads as a text of digits reads as an integer.** -/
theorem toInteger_of_toText {d : Doc} {literal : Text} {n : Nat}
    (h : (Value.ofDoc .lossless d).toText = .ok literal)
    (hread : Decimal.read? literal = some n) :
    ∃ i, (Value.ofDoc .lossless d).toInteger = .ok i := by
  obtain ⟨x, hx, rfl⟩ := toText_eq_ok_iff.1 h
  obtain ⟨y, hy⟩ := hx.exists_number hread
  exact ⟨y.plainInteger, map_eq_ok_iff.2 ⟨y, hy.simplify_eq, rfl⟩⟩

end Doc

end Json

end WireCodec
