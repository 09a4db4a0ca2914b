import WireCodec.Proofs.Json.Grammar
import WireCodec.Proofs.Outcome

/-
**Tokens: what is written is read, and what is read is written.**

Each scanner takes a token from the beginning of a text.  For each of them there are two lemmas: a
token of the grammar is taken, whatever follows that does not continue it, and what a scanner takes
is a token of the grammar.

Main results:

* `Json.scanText_eq_some_iff`: the content of texts;
* `Json.scanKey_append`, `Json.exists_keyForm_of_scanKey`: keys;
* `Json.scanNumeral_append`, `Json.isToken_of_scanNumeral`: number tokens.
-/

set_option relaxedAutoImplicit false
set_option autoImplicit false

namespace WireCodec

namespace Json

/-! ### White space -/

/-- The four units of white space. -/
theorem isSpace_iff {u : CodeUnit} :
    isSpace u = true ↔ ((u = 0x20 ∨ u = 0x0A) ∨ u = 0x09) ∨ u = 0x0D := by
  simp [isSpace]

theorem skipSpace_append {l : Text} (h : Blank l) (t : Text) :
    skipSpace (l ++ t) = skipSpace t := by
  induction l with
  | nil => rfl
  | cons u l ih =>
      have hu := h u List.mem_cons_self
      rw [List.cons_append, skipSpace, List.dropWhile_cons, if_pos hu]
      exact ih fun v hv => h v (List.mem_cons_of_mem u hv)

theorem skipSpace_cons {u : CodeUnit} (h : isSpace u = false) (t : Text) :
    skipSpace (u :: t) = u :: t := by
  rw [skipSpace, List.dropWhile_cons, if_neg (by simp [h])]

/-- What is skipped is white space. -/
theorem exists_blank (t : Text) : ∃ l, Blank l ∧ t = l ++ skipSpace t := by
  refine ⟨t.takeWhile isSpace, fun u hu => ?_, (List.takeWhile_append_dropWhile).symm⟩
  exact List.all_eq_true.1 List.all_takeWhile u hu

/-- No document begins with white space. -/
theorem isSpace_of_ofUnit? {u : CodeUnit} {s : Doc.Shape} (h : Doc.Shape.ofUnit? u = some s) :
    isSpace u = false := by
  rw [Bool.eq_false_iff]
  intro hspace
  have hnone : Doc.Shape.ofUnit? u = none := by
    rcases isSpace_iff.1 hspace with ((rfl | rfl) | rfl) | rfl <;> decide
  rw [hnone] at h
  simp at h

/-! ### Texts -/

/-- The letter of the escapes by number is not that of another escape. -/
theorem ne_unit_u_of_escaped? {e u : CodeUnit} (h : escaped? e = some u) : e ≠ Text.unit 'u' := by
  rintro rfl
  rw [show escaped? (Text.unit 'u') = none by decide] at h
  simp at h

/-- A written unit is taken. -/
theorem scanText_unit_append {u : CodeUnit} {form : Text} (h : UnitForm u form) (t : Text) :
    scanText (form ++ t) = (scanText t).map (consUnit u) := by
  have hback : backslash ≠ quote := by decide
  cases h with
  | plain hquote hback hcontrol =>
      rw [List.singleton_append, scanText.eq_def]
      simp only
      rw [if_neg hquote, if_neg hback, if_neg (by omega)]
  | @short e u he =>
      rw [List.cons_append, List.singleton_append, scanText.eq_def]
      simp only
      rw [if_neg hback, if_pos trivial, if_neg (ne_unit_u_of_escaped? he), he]
  | digits hd =>
      simp only [List.cons_append, List.nil_append]
      rw [scanText.eq_def]
      simp only
      rw [if_neg hback, if_pos trivial, if_pos trivial, hd]

/-- Written content is taken up to the closing quote. -/
theorem scanText_append {t content : Text} (h : ContentForm t content) (rest : Text) :
    scanText (content ++ quote :: rest) = some (t, rest) := by
  induction h with
  | nil =>
      rw [List.nil_append, scanText.eq_def]
      exact if_pos rfl
  | cons hu ht ih =>
      rw [List.append_assoc, scanText_unit_append hu, ih]
      rfl

/-- What is taken is written content. -/
theorem exists_contentForm_of_scanText {t s rest : Text} (h : scanText t = some (s, rest)) :
    ∃ content, ContentForm s content ∧ t = content ++ quote :: rest := by
  -- a written unit in front of a text that was taken
  have hunit : ∀ {u : CodeUnit} {form t s : Text}, UnitForm u form →
      (∀ {s}, scanText t = some (s, rest) →
        ∃ content, ContentForm s content ∧ t = content ++ quote :: rest) →
      (scanText t).map (consUnit u) = some (s, rest) →
      ∃ content, ContentForm s content ∧ form ++ t = content ++ quote :: rest := by
    intro u form t s hu ih h
    obtain ⟨⟨s', rest'⟩, hscan, heq⟩ := Option.map_eq_some_iff.1 h
    obtain ⟨rfl, rfl⟩ := Prod.mk.inj heq
    obtain ⟨content, hcontent, ht⟩ := ih hscan
    exact ⟨form ++ content, .cons hu hcontent, by rw [ht, List.append_assoc]⟩
  -- the cases that take a unit are those of `UnitForm`
  fun_induction scanText t generalizing s with
  | case2 t =>
      obtain ⟨rfl, rfl⟩ := Prod.mk.inj (Option.some_inj.1 h)
      exact ⟨[], .nil, rfl⟩
  | case4 a b c d t v hv hback ih => exact hunit (.digits hv) ih h
  | case7 e t hu v hv hback ih => exact hunit (.short hv) ih h
  | case10 u t hquote hback hcontrol ih => exact hunit (.plain hquote hback (by omega)) ih h
  | case1 | case3 | case5 | case6 | case8 | case9 => simp at h

theorem scanText_eq_some_iff {t s rest : Text} :
    scanText t = some (s, rest) ↔
      ∃ content, ContentForm s content ∧ t = content ++ quote :: rest := by
  constructor
  · exact exists_contentForm_of_scanText
  · rintro ⟨content, hcontent, rfl⟩
    exact scanText_append hcontent rest

/-! ### Keys -/

theorem scanKey_append {key k : Text} (h : KeyForm key k) (rest : Text) :
    scanKey (k ++ rest) = some (key, rest) := by
  obtain ⟨hbefore, hkey, hbetween⟩ := h
  simp only [List.append_assoc, List.cons_append, List.nil_append]
  rw [scanKey, skipSpace_append hbefore, skipSpace_cons (by decide)]
  simp only
  rw [if_pos trivial, scanText_append hkey]
  simp only
  rw [skipSpace_append hbetween, skipSpace_cons (by decide)]
  exact if_pos rfl

theorem exists_keyForm_of_scanKey {t key rest : Text} (h : scanKey t = some (key, rest)) :
    ∃ k, KeyForm key k ∧ t = k ++ rest := by
  obtain ⟨before, hbefore, ht⟩ := exists_blank t
  rw [scanKey] at h
  split at h
  · simp at h
  · next u t₁ hskip =>
      split at h
      · next hu =>
          split at h
          · simp at h
          · next key' t₂ hscan =>
              obtain ⟨content, hcontent, rfl⟩ := exists_contentForm_of_scanText hscan
              obtain ⟨between, hbetween, ht₂⟩ := exists_blank t₂
              split at h
              · simp at h
              · next v t₃ hskip₂ =>
                  split at h
                  · next hv =>
                      obtain ⟨rfl, rfl⟩ := Prod.mk.inj (Option.some_inj.1 h)
                      refine ⟨_, .mk hbefore hcontent hbetween, ?_⟩
                      rw [hskip₂, hv] at ht₂
                      rw [ht, hskip, hu, ht₂]
                      simp
                  · simp at h
      · simp at h

/-! ### Numbers -/

/-- What follows does not continue a number token. -/
def Stops (t : Text) : Prop := ∀ u ∈ t.head?, beginsNumeral u = false

theorem ofUnit?_of_stops {rest : Text} (h : Stops rest) :
    ∀ u ∈ rest.head?, Digit.ofUnit? u = none := by
  intro u hu
  have hstop := h u hu
  simp only [beginsNumeral, Bool.or_eq_false_iff] at hstop
  simpa using hstop.1.1.1.2

/-- A run of digits that is not empty is taken. -/
theorem scanDigits_spell_append {ds : List Digit} (hds : ds ≠ []) {rest : Text}
    (hrest : ∀ u ∈ rest.head?, Digit.ofUnit? u = none) :
    scanDigits (Decimal.spell ds ++ rest) = .ok (ds, rest) := by
  obtain ⟨d, ds, rfl⟩ := List.exists_cons_of_ne_nil hds
  rw [scanDigits, Decimal.takeDigits_spell_append (d :: ds) hrest]

theorem scanExponentSign_append (sign : Option Bool) {ds : List Digit} (hds : ds ≠ [])
    (rest : Text) :
    scanExponentSign (Exponent.signText sign ++ (Decimal.spell ds ++ rest)) =
      (sign, Decimal.spell ds ++ rest) := by
  obtain ⟨d, ds, rfl⟩ := List.exists_cons_of_ne_nil hds
  match sign with
  | some true => rfl
  | some false => rfl
  | none =>
      have hplus : ∀ d : Digit, d.unit ≠ Text.unit '+' := by decide
      rw [Exponent.signText, List.nil_append, Decimal.spell, List.map_cons, List.cons_append,
        scanExponentSign, if_neg (Digit.unit_ne_minus d), if_neg (hplus d)]

section Following

variable {rest : Text} (h : Stops rest)
include h

/-- An exponent part or what follows it begins with no point and no digit. -/
theorem head_exponentText (e : Option Exponent) :
    ∀ u ∈ (Numeral.exponentText e ++ rest).head?, u ≠ Text.unit '.' ∧ Digit.ofUnit? u = none := by
  intro u hu
  cases e with
  | none =>
      have hstop := h u hu
      simp only [beginsNumeral, Bool.or_eq_false_iff, beq_eq_false_iff_ne] at hstop
      exact ⟨hstop.1.1.2, ofUnit?_of_stops h u hu⟩
  | some e =>
      simp only [Numeral.exponentText, Exponent.text, List.cons_append, List.head?_cons,
        Option.mem_some_iff] at hu
      subst hu
      cases e.capital <;> decide

/-- A fraction or what follows it begins with no digit. -/
theorem head_fractionText (f : Option (List Digit)) (e : Option Exponent) :
    ∀ u ∈ (Numeral.fractionText f ++ (Numeral.exponentText e ++ rest)).head?,
      Digit.ofUnit? u = none := by
  intro u hu
  cases f with
  | none => exact (head_exponentText h e u hu).2
  | some ds =>
      simp only [Numeral.fractionText, List.cons_append, List.head?_cons,
        Option.mem_some_iff] at hu
      subst hu
      decide

theorem scanExponent_append {e : Option Exponent} (he : ∀ x, e = some x → x.digits ≠ []) :
    scanExponent (Numeral.exponentText e ++ rest) = .ok (e, rest) := by
  cases e with
  | none =>
      cases rest with
      | nil => rfl
      | cons u rest =>
          have hstop := h u rfl
          simp only [beginsNumeral, Bool.or_eq_false_iff, beq_eq_false_iff_ne] at hstop
          rw [Numeral.exponentText, List.nil_append, scanExponent,
            if_neg (not_or.2 ⟨hstop.1.2, hstop.2⟩)]
  | some e =>
      obtain ⟨capital, sign, ds⟩ := e
      have hds : ds ≠ [] := he _ rfl
      have hdigits := scanDigits_spell_append hds (ofUnit?_of_stops h)
      rw [Numeral.exponentText, Exponent.text, List.cons_append, List.append_assoc, scanExponent]
      simp only
      rw [scanExponentSign_append sign hds, hdigits]
      cases capital <;> rfl

theorem scanFraction_append {f : Option (List Digit)} (hf : f ≠ some []) (e : Option Exponent) :
    scanFraction (Numeral.fractionText f ++ (Numeral.exponentText e ++ rest)) =
      .ok (f, Numeral.exponentText e ++ rest) := by
  have hhead := head_exponentText h e
  cases f with
  | none =>
      rw [Numeral.fractionText, List.nil_append]
      cases hrest : Numeral.exponentText e ++ rest with
      | nil => rfl
      | cons u t =>
          rw [hrest] at hhead
          rw [scanFraction, if_neg (hhead u rfl).1]
  | some ds =>
      have hds : ds ≠ [] := fun hnil => hf (congrArg some hnil)
      have hdigits := scanDigits_spell_append hds fun u hu => (hhead u hu).2
      rw [Numeral.fractionText, List.cons_append, scanFraction, if_pos rfl, hdigits]
      rfl

theorem scanWhole_append {ds : List Digit} (hds : Decimal.IsCanonical ds)
    (f : Option (List Digit)) (e : Option Exponent) :
    scanWhole (Decimal.spell ds ++ (Numeral.fractionText f ++ (Numeral.exponentText e ++ rest))) =
      (ds, Numeral.fractionText f ++ (Numeral.exponentText e ++ rest)) := by
  have htake := Decimal.takeDigits_spell_append ds (head_fractionText h f e)
  rcases hds with rfl | ⟨d, ds, rfl, hd⟩
  · rfl
  · have hzero : d.unit ≠ Text.unit '0' := fun hu => hd (Digit.unit_injective hu)
    rw [Decimal.spell, List.map_cons, List.cons_append] at htake ⊢
    rw [scanWhole, if_neg hzero, htake]

end Following

theorem scanMinus_append (negative : Bool) {ds : List Digit} (hds : ds ≠ []) (rest : Text) :
    scanMinus ((if negative then [Decimal.minus] else []) ++ (Decimal.spell ds ++ rest)) =
      .ok (negative, Decimal.spell ds ++ rest) := by
  obtain ⟨d, ds, rfl⟩ := List.exists_cons_of_ne_nil hds
  rw [Decimal.spell, List.map_cons, List.cons_append]
  cases negative with
  | false => exact if_neg (Digit.unit_ne_minus d)
  | true => simp [scanMinus, Decimal.takeDigits]

/-- A written number is taken. -/
theorem scanNumeral_append {n : Numeral} (hn : n.IsToken) {rest : Text} (h : Stops rest) :
    scanNumeral (n.text ++ rest) = .ok (n, rest) := by
  obtain ⟨negative, whole, fraction, exponent⟩ := n
  rw [Numeral.text]
  simp only [List.append_assoc]
  -- the parts are taken one after another, and each ends where the next one begins
  rw [scanNumeral, scanMinus_append negative hn.whole.ne_nil]
  simp only [bind, Except.bind]
  rw [scanWhole_append h hn.whole]
  simp only
  rw [scanFraction_append h hn.fraction]
  simp only
  rw [scanExponent_append h hn.exponent]
  exact if_neg hn.whole.ne_nil

theorem eq_of_scanMinus {t rest : Text} {negative : Bool} (h : scanMinus t = .ok (negative, rest)) :
    t = (if negative then [Decimal.minus] else []) ++ rest := by
  cases t with
  | nil =>
      obtain ⟨rfl, rfl⟩ := Prod.mk.inj (Except.ok.inj h)
      rfl
  | cons u t =>
      rw [scanMinus] at h
      split at h
      · next hu =>
          split at h
          · simp at h
          · obtain ⟨rfl, rfl⟩ := Prod.mk.inj (Except.ok.inj h)
            rw [hu]
            rfl
      · obtain ⟨rfl, rfl⟩ := Prod.mk.inj (Except.ok.inj h)
        rfl

/-- The digits before the point are a token's, or there are none. -/
theorem isCanonical_of_scanWhole {t rest : Text} {ds : List Digit} (h : scanWhole t = (ds, rest))
    (hds : ds ≠ []) : Decimal.IsCanonical ds ∧ t = Decimal.spell ds ++ rest := by
  cases t with
  | nil => exact absurd (Prod.mk.inj h).1.symm hds
  | cons u t =>
      rw [scanWhole] at h
      split at h
      · next hu =>
          obtain ⟨rfl, rfl⟩ := Prod.mk.inj h
          rw [hu]
          exact ⟨.inl rfl, rfl⟩
      · next hu =>
          have ht := Decimal.eq_of_takeDigits h
          obtain ⟨d, ds, rfl⟩ := List.exists_cons_of_ne_nil hds
          refine ⟨.inr ⟨d, ds, rfl, ?_⟩, ht⟩
          -- the first digit is the first unit, which is no zero
          rintro rfl
          exact hu (List.cons.inj ht).1

theorem eq_of_scanDigits {t rest : Text} {ds : List Digit} (h : scanDigits t = .ok (ds, rest)) :
    ds ≠ [] ∧ t = Decimal.spell ds ++ rest := by
  rw [scanDigits] at h
  split at h
  · simp at h
  · next d ds rest' htake =>
      obtain ⟨rfl, rfl⟩ := Prod.mk.inj (Except.ok.inj h)
      exact ⟨List.cons_ne_nil d ds, Decimal.eq_of_takeDigits htake⟩

theorem eq_of_scanFraction {t rest : Text} {f : Option (List Digit)}
    (h : scanFraction t = .ok (f, rest)) :
    f ≠ some [] ∧ t = Numeral.fractionText f ++ rest := by
  cases t with
  | nil =>
      obtain ⟨rfl, rfl⟩ := Prod.mk.inj (Except.ok.inj h)
      exact ⟨nofun, rfl⟩
  | cons u t =>
      rw [scanFraction] at h
      split at h
      · next hu =>
          obtain ⟨⟨ds, rest'⟩, hdigits, hpair⟩ := exists_of_map_eq_ok h
          obtain ⟨rfl, rfl⟩ := Prod.mk.inj hpair
          obtain ⟨hds, rfl⟩ := eq_of_scanDigits hdigits
          exact ⟨fun hnil => hds (Option.some_inj.1 hnil), by rw [hu]; rfl⟩
      · obtain ⟨rfl, rfl⟩ := Prod.mk.inj (Except.ok.inj h)
        exact ⟨nofun, rfl⟩

theorem eq_of_scanExponentSign {t rest : Text} {sign : Option Bool}
    (h : scanExponentSign t = (sign, rest)) : t = Exponent.signText sign ++ rest := by
  cases t with
  | nil =>
      obtain ⟨rfl, rfl⟩ := Prod.mk.inj h
      rfl
  | cons u t =>
      rw [scanExponentSign] at h
      split at h
      · next hu =>
          obtain ⟨rfl, rfl⟩ := Prod.mk.inj h
          rw [hu]
          rfl
      · split at h
        · next hu =>
            obtain ⟨rfl, rfl⟩ := Prod.mk.inj h
            rw [hu]
            rfl
        · obtain ⟨rfl, rfl⟩ := Prod.mk.inj h
          rfl

theorem eq_of_scanExponent {t rest : Text} {e : Option Exponent}
    (h : scanExponent t = .ok (e, rest)) :
    (∀ x, e = some x → x.digits ≠ []) ∧ t = Numeral.exponentText e ++ rest := by
  cases t with
  | nil =>
      obtain ⟨rfl, rfl⟩ := Prod.mk.inj (Except.ok.inj h)
      exact ⟨nofun, rfl⟩
  | cons u t =>
      rw [scanExponent] at h
      split at h
      · next hu =>
          obtain ⟨⟨ds, rest'⟩, hdigits, hpair⟩ := exists_of_map_eq_ok h
          obtain ⟨rfl, rfl⟩ := Prod.mk.inj hpair
          obtain ⟨hds, ht⟩ := eq_of_scanDigits hdigits
          have hsign := eq_of_scanExponentSign (t := t) rfl
          rw [ht] at hsign
          refine ⟨fun x hx => by rw [← Option.some_inj.1 hx]; exact hds, ?_⟩
          rw [Numeral.exponentText, Exponent.text, List.cons_append, List.append_assoc, ← hsign]
          rcases hu with rfl | rfl <;> rfl
      · obtain ⟨rfl, rfl⟩ := Prod.mk.inj (Except.ok.inj h)
        exact ⟨nofun, rfl⟩

/-- What is taken for a number is a token. -/
theorem isToken_of_scanNumeral {t rest : Text} {n : Numeral} (h : scanNumeral t = .ok (n, rest)) :
    n.IsToken ∧ t = n.text ++ rest := by
  rw [scanNumeral] at h
  obtain ⟨⟨negative, t₁⟩, hminus, h⟩ := exists_of_bind_eq_ok h
  rcases hscan : scanWhole t₁ with ⟨whole, t₂⟩
  simp only [hscan] at h
  obtain ⟨⟨fraction, t₃⟩, hfraction, h⟩ := exists_of_bind_eq_ok h
  obtain ⟨⟨exponent, t₄⟩, hexponent, h⟩ := exists_of_bind_eq_ok h
  simp only at hexponent h
  split at h
  · simp at h
  · next hds =>
      obtain ⟨rfl, rfl⟩ := Prod.mk.inj (Except.ok.inj h)
      obtain ⟨hwhole, ht₁⟩ := isCanonical_of_scanWhole hscan hds
      obtain ⟨hnil, ht₂⟩ := eq_of_scanFraction hfraction
      obtain ⟨hdigits, ht₃⟩ := eq_of_scanExponent hexponent
      refine ⟨⟨hwhole, hnil, hdigits⟩, ?_⟩
      rw [ht₃] at ht₂
      rw [ht₂] at ht₁
      rw [eq_of_scanMinus hminus, ht₁, Numeral.text]
      simp only [List.append_assoc]

end Json

end WireCodec
