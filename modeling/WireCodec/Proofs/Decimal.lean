import WireCodec.Decimal

/-
**Digits and the numbers they denote.**

Main results:

* `Decimal.number_digits`, `Decimal.isCanonical_digits`: the digits of a number denote it and have
  no leading zero;
* `Decimal.lt_tenTo_length`, `Decimal.tenTo_length_le`: the powers of ten around a number;
* `Decimal.read?_text`: a number that is written is read back;
* `Decimal.read?_eq_some_iff`: the texts that are read as numbers are one or more digits;
* `Decimal.read?_intText_eq_some_iff`: the text of an integer is read as a number if it is one;
* `Decimal.takeDigits_spell_append`, `Decimal.eq_of_takeDigits`: a run of digits at the beginning
  of a text.
-/

set_option relaxedAutoImplicit false
set_option autoImplicit false

namespace WireCodec

/-! ### Single digits -/

theorem Digit.unit_of_ofUnit? {u : CodeUnit} {d : Digit} (h : Digit.ofUnit? u = some d) :
    d.unit = u := by
  rw [Digit.ofUnit?] at h
  split at h
  · next hu =>
      obtain rfl := Option.some_inj.1 h
      rw [Digit.unit, Nat.add_sub_cancel' hu.1, UInt16.ofNat_toNat]
  · simp at h

theorem Digit.unit_ne_minus (d : Digit) : d.unit ≠ Decimal.minus := by
  revert d
  decide

theorem Digit.unit_injective : Function.Injective Digit.unit := by
  intro d d' h
  have hread := Digit.ofUnit?_unit d
  rw [h, Digit.ofUnit?_unit] at hread
  exact (Option.some_inj.1 hread).symm

namespace Decimal

/-! ### Numbers -/

/-- No zero in front of other digits, and at least one digit. -/
def IsCanonical (ds : List Digit) : Prop :=
  ds = [Digit.zero] ∨ ∃ d rest, ds = d :: rest ∧ d ≠ Digit.zero

theorem IsCanonical.ne_nil {ds : List Digit} (h : IsCanonical ds) : ds ≠ [] := by
  rcases h with rfl | ⟨d, rest, rfl, -⟩ <;> simp

theorem number_append_singleton (ds : List Digit) (d : Digit) :
    number (ds ++ [d]) = 10 * number ds + d.val := by
  simp [number]

/-- The digits of a number denote it. -/
theorem number_digits (n : Nat) : number (digits n) = n := by
  fun_induction digits n with
  | case1 n hn => simp [number]
  | case2 n hn ih =>
      rw [number_append_singleton, ih]
      exact Nat.div_add_mod n 10

/-- The digits of a number have no leading zero. -/
theorem isCanonical_digits (n : Nat) : IsCanonical (digits n) := by
  fun_induction digits n with
  | case1 n hn =>
      by_cases hzero : n = 0
      · subst hzero
        exact .inl rfl
      · exact .inr ⟨_, [], rfl, fun h => hzero (congrArg Fin.val h)⟩
  | case2 n hn ih =>
      rcases ih with hzero | ⟨d, rest, hds, hd⟩
      · -- the upper part of the number is not zero
        have hupper := number_digits (n / 10)
        rw [hzero] at hupper
        simp only [number, Digit.zero, List.foldl_cons, List.foldl_nil] at hupper
        omega
      · exact .inr ⟨d, rest ++ [_], by rw [hds]; rfl, hd⟩

/-- A number with so many digits is below that power of ten. -/
theorem lt_tenTo_length (n : Nat) : n < tenTo (digits n).length := by
  have hten : ∀ k, tenTo k = 10 ^ k := fun _ => rfl
  fun_induction digits n with
  | case1 n hn => exact hn
  | case2 n hn ih =>
      rw [hten] at ih
      rw [hten, List.length_append, List.length_singleton, Nat.pow_succ]
      omega

theorem tenTo_length_le {n : Nat} (h : n ≠ 0) : tenTo ((digits n).length - 1) ≤ n := by
  have hten : ∀ k, tenTo k = 10 ^ k := fun _ => rfl
  fun_induction digits n with
  | case1 n hn => exact Nat.pos_of_ne_zero h
  | case2 n hn ih =>
      have hpos : 0 < (digits (n / 10)).length :=
        List.length_pos_iff.2 (isCanonical_digits (n / 10)).ne_nil
      have ih' := ih (by omega)
      rw [hten] at ih'
      obtain ⟨k, hk⟩ := Nat.exists_eq_add_of_le' hpos
      rw [hk, Nat.add_sub_cancel] at ih'
      rw [hten, List.length_append, List.length_singleton, Nat.add_sub_cancel, hk, Nat.pow_succ]
      omega

/-- A text whose digits can be read is those digits. -/
theorem eq_spell_of_readDigits {t : Text} {ds : List Digit} (h : readDigits t = some ds) :
    t = spell ds := by
  induction t generalizing ds with
  | nil =>
      rw [← Option.some_inj.1 h]
      rfl
  | cons u t ih =>
      rw [readDigits] at h
      split at h
      · next d rest hd hrest =>
          rw [← Option.some_inj.1 h, spell, List.map_cons, Digit.unit_of_ofUnit? hd, ← spell,
            ← ih hrest]
      · cases h

/-- The texts that are read as numbers are one or more digits. -/
theorem read?_eq_some_iff {t : Text} {n : Nat} :
    read? t = some n ↔ ∃ ds, ds ≠ [] ∧ t = spell ds ∧ number ds = n := by
  constructor
  · intro h
    rw [read?] at h
    split at h
    · cases h
    · next hne =>
        obtain ⟨ds, hds, hnumber⟩ := Option.map_eq_some_iff.1 h
        obtain rfl := eq_spell_of_readDigits hds
        exact ⟨ds, fun hnil => hne (by rw [hnil]; rfl), rfl, hnumber⟩
  · rintro ⟨ds, hds, rfl, rfl⟩
    have hne : spell ds ≠ [] := fun hnil => hds (List.map_eq_nil_iff.1 hnil)
    rw [read?, if_neg hne, readDigits_spell, Option.map_some]

/-- A number that is written is read back. -/
@[simp] theorem read?_text (n : Nat) : read? (text n) = some n :=
  read?_eq_some_iff.2 ⟨digits n, (isCanonical_digits n).ne_nil, rfl, number_digits n⟩

/-- A minus sign is no digit. -/
theorem read?_minus_cons (t : Text) : read? (minus :: t) = none := by
  have hminus : Digit.ofUnit? minus = none := by decide
  rw [read?, if_neg (List.cons_ne_nil _ _), readDigits, hminus]
  rfl

/-- The text of an integer is read as a number if the integer is one. -/
theorem read?_intText_eq_some_iff {i : Int} {n : Nat} :
    read? (intText i) = some n ↔ i = (n : Int) := by
  cases i with
  | ofNat m =>
      rw [intText, read?_text, Option.some_inj]
      exact Int.ofNat_inj.symm
  | negSucc m =>
      rw [intText, read?_minus_cons]
      exact iff_of_false nofun nofun

/-! ### Runs of digits -/

/-- A run of digits ends where no digit follows. -/
theorem takeDigits_spell_append (ds : List Digit) {rest : Text}
    (hrest : ∀ u ∈ rest.head?, Digit.ofUnit? u = none) :
    takeDigits (spell ds ++ rest) = (ds, rest) := by
  induction ds with
  | nil =>
      cases rest with
      | nil => rfl
      | cons u rest =>
          have hu := hrest u rfl
          simp [spell, takeDigits, hu]
  | cons d ds ih =>
      rw [spell] at ih ⊢
      simp [takeDigits, ih]

/-- A run of digits and what follows are the text. -/
theorem eq_of_takeDigits {t rest : Text} {ds : List Digit} (h : takeDigits t = (ds, rest)) :
    t = spell ds ++ rest := by
  induction t generalizing ds with
  | nil =>
      simp only [takeDigits, Prod.mk.injEq] at h
      rw [← h.1, ← h.2]
      rfl
  | cons u t ih =>
      rw [takeDigits] at h
      cases hu : Digit.ofUnit? u with
      | none =>
          simp only [hu, Prod.mk.injEq] at h
          rw [← h.1, ← h.2]
          rfl
      | some d =>
          simp only [hu, Prod.mk.injEq] at h
          obtain ⟨rfl, hrest⟩ := h
          rw [spell, List.map_cons, Digit.unit_of_ofUnit? hu, List.cons_append, ← spell,
            ← ih (Prod.ext rfl hrest)]

end Decimal

end WireCodec
