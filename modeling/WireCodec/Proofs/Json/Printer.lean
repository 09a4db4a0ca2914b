import WireCodec.Proofs.Json.Parser

/-
**What is printed is written, and so it is read back.**

Not every document can be written: the parts of a number need not be those of a token, and a
reader need not admit the members of an object.  The compact text of any other document writes it.

Main definitions:

* `Json.Doc.IsWritable`: all numbers are tokens, and all objects take their members.

Main results:

* `Json.contentForm_escape`: an escaped text writes the text, surrogates included;
* `Json.Doc.IsWritable.written_print`: the compact text writes the document;
* `Json.Doc.IsWritable.parse_print`: the compact text is read back.
-/

set_option relaxedAutoImplicit false
set_option autoImplicit false

namespace WireCodec

namespace Json

/-! ### Texts -/

/-- The digits of a unit denote it. -/
theorem unitForm_unicodeEscape (u : CodeUnit) : UnitForm u (unicodeEscape u) := by
  have hlt := u.toNat_lt
  rw [unicodeEscape, Base16.pair, Base16.pair]
  refine .digits ?_
  -- the digits are those of the two halves of the unit
  rw [unitOfDigits?]
  simp only [Base16.digit?_unit, Option.some_inj]
  have hhigh : (UInt8.ofNat (u.toNat / 256)).toNat = u.toNat / 256 :=
    UInt8.toNat_ofNat_of_lt' (by rw [UInt8.size]; omega)
  have hlow : (UInt8.ofNat (u.toNat % 256)).toNat = u.toNat % 256 :=
    UInt8.toNat_ofNat_of_lt' (by rw [UInt8.size]; omega)
  rw [hhigh, hlow, ← UInt16.toNat_inj, UInt16.toNat_ofNat_of_lt' (by rw [UInt16.size]; omega)]
  omega

/-- A unit that stands alone is written by its escape. -/
theorem unitForm_escapeUnit (u : CodeUnit) : UnitForm u (escapeUnit u) := by
  rw [escapeUnit]
  split
  · next h => exact .short (by rw [h]; decide)
  next hquote =>
  split
  · next h => exact .short (by rw [h]; decide)
  next hback =>
  split
  · next h => exact .short (by rw [h]; decide)
  split
  · next h => exact .short (by rw [h]; decide)
  split
  · next h => exact .short (by rw [h]; decide)
  split
  · next h => exact .short (by rw [h]; decide)
  split
  · next h => exact .short (by rw [h]; decide)
  split
  · exact unitForm_unicodeEscape u
  · next hplain =>
      simp only [Bool.or_eq_true, decide_eq_true_eq, not_or, Nat.not_lt] at hplain
      exact .plain hquote hback hplain.1

/-- A surrogate may stand as it is. -/
theorem unitForm_surrogate {u : CodeUnit} (h : Text.isSurrogate u = true) : UnitForm u [u] := by
  have hrange : 0xD800 ≤ u.toNat := by
    simp only [Text.isSurrogate, Text.isLead, Text.isTrail, Bool.or_eq_true, Bool.and_eq_true,
      decide_eq_true_eq] at h
    omega
  refine .plain ?_ ?_ (by omega)
  · rintro rfl
    exact absurd hrange (by decide)
  · rintro rfl
    exact absurd hrange (by decide)

/-- An escaped text writes the text. -/
theorem contentForm_escape (t : Text) : ContentForm t (escape t) := by
  fun_induction escape t with
  | case1 => exact .nil
  | case2 u =>
      have h := ContentForm.cons (unitForm_escapeUnit u) .nil
      rwa [List.append_nil] at h
  | case3 u v rest hpair ih =>
      -- the two surrogates of a pair stand as they are
      simp only [Bool.and_eq_true] at hpair
      have hlead : Text.isSurrogate u = true := by simp [Text.isSurrogate, hpair.1]
      have htrail : Text.isSurrogate v = true := by simp [Text.isSurrogate, hpair.2]
      exact .cons (unitForm_surrogate hlead) (.cons (unitForm_surrogate htrail) ih)
  | case4 u v rest _ ih => exact .cons (unitForm_escapeUnit u) ih

/-- A text is its own escape if none of its units has an escape. -/
theorem escape_eq_self {t : Text} (h : ∀ u ∈ t, escapeUnit u = [u]) : escape t = t := by
  fun_induction escape t with
  | case1 => rfl
  | case2 u => exact h u (List.mem_singleton_self u)
  | case3 u v rest _ ih =>
      rw [ih fun w hw => h w (List.mem_cons_of_mem u (List.mem_cons_of_mem v hw))]
  | case4 u v rest _ ih =>
      rw [h u List.mem_cons_self, ih fun w hw => h w (List.mem_cons_of_mem u hw)]
      rfl

theorem keyForm_quoted (key : Text) : KeyForm key (quoted key ++ [colon]) := by
  have h := @KeyForm.mk [] key (escape key) [] nofun (contentForm_escape key) nofun
  rw [quoted, List.cons_append, List.append_assoc]
  exact h

/-! ### Documents -/

section

variable (admits : Admission)

mutual

/-- All numbers are tokens, and all objects take their members. -/
def Doc.IsWritable : Doc → Prop
  | .number n => n.IsToken
  | .array items => Doc.AreWritable items
  | .object members => Doc.AreWritableAfter [] members
  | _ => True

/-- All items can be written. -/
def Doc.AreWritable : List Doc → Prop
  | [] => True
  | d :: rest => d.IsWritable ∧ Doc.AreWritable rest

/-- All members can be written, and each may follow those before it. -/
def Doc.AreWritableAfter (seen : List (Text × Doc)) : List (Text × Doc) → Prop
  | [] => True
  | (key, d) :: rest =>
      d.IsWritable ∧ admits seen key d = true ∧ Doc.AreWritableAfter (seen ++ [(key, d)]) rest

end

end

variable {admits : Admission}

/-- Items can be written if each of them can. -/
theorem Doc.areWritable_iff {items : List Doc} :
    Doc.AreWritable admits items ↔ ∀ d ∈ items, d.IsWritable admits := by
  induction items with
  | nil => exact iff_of_true trivial nofun
  | cons d rest ih => rw [Doc.AreWritable, ih, List.forall_mem_cons]

theorem Written.spaced {d : Doc} {t : Text} (h : Written admits d t) :
    WrittenSpaced admits d t := by
  have hspaced := @WrittenSpaced.mk admits [] t [] d nofun h nofun
  rwa [List.nil_append, List.append_nil] at hspaced

mutual

/-- **The compact text of a document writes it.** -/
theorem Doc.IsWritable.written_print {d : Doc} (h : d.IsWritable admits) :
    Written admits d d.print := by
  cases d with
  | null => exact .null
  | bool b => exact .bool b
  | number n => exact .number h
  | text t => exact .text (contentForm_escape t)
  | array items =>
      by_cases hitems : items = []
      · subst hitems
        exact .emptyArray nofun
      · exact .array (Doc.AreWritable.written_print hitems h)
  | object members =>
      by_cases hmembers : members = []
      · subst hmembers
        exact .emptyObject nofun
      · exact .object (Doc.AreWritableAfter.written_print hmembers h)

theorem Doc.AreWritable.written_print {items : List Doc} (hne : items ≠ [])
    (h : Doc.AreWritable admits items) : WrittenItems admits items (Doc.printItems items) := by
  cases items with
  | nil => exact absurd rfl hne
  | cons d rest =>
      obtain ⟨hd, hrest⟩ := h
      have hw := hd.written_print.spaced
      cases rest with
      | nil => exact .last hw
      | cons d' rest =>
          exact .cons hw (Doc.AreWritable.written_print (List.cons_ne_nil d' rest) hrest)

theorem Doc.AreWritableAfter.written_print {seen members : List (Text × Doc)}
    (hne : members ≠ []) (h : Doc.AreWritableAfter admits seen members) :
    WrittenMembers admits seen members (Doc.printMembers members) := by
  cases members with
  | nil => exact absurd rfl hne
  | cons m rest =>
      obtain ⟨key, d⟩ := m
      obtain ⟨hd, hallowed, hrest⟩ := h
      have hw := hd.written_print.spaced
      cases rest with
      | nil =>
          have hlast := WrittenMembers.last (keyForm_quoted key) hw hallowed
          rwa [List.append_assoc] at hlast
      | cons m' rest =>
          have hmore := Doc.AreWritableAfter.written_print (List.cons_ne_nil m' rest) hrest
          have hcons := WrittenMembers.cons (keyForm_quoted key) hw hallowed hmore
          rwa [List.append_assoc] at hcons

end

/-- A text that is the compact text of a document writes it. -/
theorem Doc.IsWritable.spaced_of_print_eq {d : Doc} (h : d.IsWritable admits) {t : Text}
    (ht : d.print = t) : WrittenSpaced admits d t := by
  rw [← ht]
  exact h.written_print.spaced

/-- **The compact text of a document is read back.** -/
theorem Doc.IsWritable.parse_print {d : Doc} (h : d.IsWritable admits) :
    Doc.parse admits d.print = .ok d :=
  Doc.parse_eq_ok_iff.2 h.written_print.spaced

end Json

end WireCodec
