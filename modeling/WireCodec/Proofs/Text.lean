import Mathlib.Data.List.DropRight
import Mathlib.Data.List.Forall2
import WireCodec.Text.Casing

/-
**White space at the ends of a text, and the case of its letters.**

A name is looked up after its white space is gone and its capitals are small.  Both steps know far
more units than ASCII has, and a name in ASCII must not come out of anything but ASCII.  For the
white space this is plain, since it is dropped and never becomes a letter.  For the capitals it
rests on the table: apart from U+212A, which becomes a `k`, and U+0130, which becomes an `i` and a
mark, no capital outside ASCII has a small letter inside.

Main definitions:

* `Text.TrimsTo`: a text is another one between white space;
* `Text.SameLetter`, `Text.SameLetters`: units and texts that differ in ASCII case at most;
* `Text.IsPlain`: a text in ASCII without the letter that has a capital elsewhere.

Main results:

* `Text.trimsTo_iff`: what `Text.trim` leaves;
* `Text.sameLetters_iff`: texts differ in ASCII case if their ASCII capitals made small agree;
* `Text.lower_trim`: case and white space do not get into each other's way;
* `Text.lowercase_eq_iff`: **the small letters of a text are a plain text exactly when its ASCII
  capitals made small are**, wherever words may end.
-/

set_option relaxedAutoImplicit false
set_option autoImplicit false

namespace WireCodec

namespace Text

/-! ### White space at the ends -/

/-- The text is `core` between white space, and `core` has none at its ends. -/
structure TrimsTo (t core : Text) : Prop where
  around : ∃ lead trail : Text, (∀ u ∈ lead, isBlank u) ∧ (∀ u ∈ trail, isBlank u) ∧
    t = lead ++ core ++ trail
  first : ∀ u ∈ core.head?, ¬ isBlank u
  last : ∀ u ∈ core.getLast?, ¬ isBlank u

theorem trim_eq (t : Text) : trim t = (t.dropWhile isBlank).rdropWhile isBlank := rfl

/-- White space around a text is no part of what is left of it. -/
theorem trim_between {lead trail : Text} (hlead : ∀ u ∈ lead, isBlank u)
    (htrail : ∀ u ∈ trail, isBlank u) (t : Text) : trim (lead ++ t ++ trail) = trim t := by
  have hfront : (lead ++ t ++ trail).dropWhile isBlank = (t ++ trail).dropWhile isBlank := by
    rw [List.append_assoc, List.dropWhile_append_of_pos hlead]
  have htail : ∀ s : Text, (s ++ trail).rdropWhile isBlank = s.rdropWhile isBlank := by
    intro s
    rw [List.rdropWhile, List.reverse_append,
      List.dropWhile_append_of_pos (by simpa using htrail)]
    rfl
  rw [trim_eq, trim_eq, hfront, List.dropWhile_append]
  split
  · next hnil =>
      rw [List.dropWhile_eq_nil_iff.2 htrail, List.isEmpty_iff.1 hnil]
  · exact htail _

/-- What `trim` leaves of a text is the text between its white space. -/
theorem trimsTo_iff {t core : Text} : TrimsTo t core ↔ trim t = core := by
  constructor
  · rintro ⟨⟨lead, trail, hlead, htrail, rfl⟩, hfirst, hlast⟩
    have hfront : core.dropWhile isBlank = core :=
      List.dropWhile_eq_self_iff.2 fun hlen => hfirst _ (by simp [List.head?_eq_getElem?, hlen])
    rw [trim_between hlead htrail, trim_eq, hfront]
    exact List.rdropWhile_eq_self_iff.2 fun hne => hlast _ (List.getLast_mem_getLast? hne)
  · rintro rfl
    have hends : t.dropWhile isBlank = trim t ++ (t.dropWhile isBlank).rtakeWhile isBlank :=
      (List.rdropWhile_append_rtakeWhile ..).symm
    refine ⟨⟨t.takeWhile isBlank, (t.dropWhile isBlank).rtakeWhile isBlank,
      fun _ => List.mem_takeWhile_imp, fun _ => List.mem_rtakeWhile_imp, ?_⟩, ?_, ?_⟩
    · rw [List.append_assoc, ← hends, List.takeWhile_append_dropWhile]
    · intro u hu
      -- the first unit that is left is the first one behind the white space
      have hfirst : (t.dropWhile isBlank).head? = some u := by
        rw [hends, List.head?_append, hu]
        rfl
      have hnot := List.head?_dropWhile_not isBlank t
      rw [hfirst] at hnot
      simpa using hnot
    · intro u hu
      obtain ⟨hne, rfl⟩ := List.mem_getLast?_eq_getLast hu
      exact List.rdropWhile_last_not _ _ hne

/-! ### ASCII letters -/

/-- The units are one, or the capital and the small form of one ASCII letter. -/
inductive SameLetter : CodeUnit → CodeUnit → Prop where
  | refl (u : CodeUnit) : SameLetter u u
  | small (i : Fin 26) : SameLetter (UInt16.ofNat (65 + i)) (UInt16.ofNat (97 + i))
  | capital (i : Fin 26) : SameLetter (UInt16.ofNat (97 + i)) (UInt16.ofNat (65 + i))

/-- The texts differ at most in the case of ASCII letters. -/
def SameLetters : Text → Text → Prop := List.Forall₂ SameLetter

theorem toNat_lowerUnit (u : CodeUnit) :
    (lowerUnit u).toNat = if 65 ≤ u.toNat ∧ u.toNat ≤ 90 then u.toNat + 32 else u.toNat := by
  rw [lowerUnit]
  by_cases hcapital : 65 ≤ u.toNat ∧ u.toNat ≤ 90
  · have hsmall : u.toNat + 32 < 2 ^ 16 := by omega
    rw [if_pos (by simpa using hcapital), if_pos hcapital, UInt16.toNat_ofNat']
    exact Nat.mod_eq_of_lt hsmall
  · rw [if_neg (by simpa using hcapital), if_neg hcapital]

theorem sameLetter_iff {u v : CodeUnit} : SameLetter u v ↔ lowerUnit u = lowerUnit v := by
  constructor
  · have hsmall : ∀ i : Fin 26, lowerUnit (UInt16.ofNat (65 + i)) =
        lowerUnit (UInt16.ofNat (97 + i)) := by decide
    rintro (_ | i | i)
    · rfl
    · exact hsmall i
    · exact (hsmall i).symm
  · intro h
    have hnat := congrArg UInt16.toNat h
    rw [toNat_lowerUnit, toNat_lowerUnit] at hnat
    -- a letter and its number in the alphabet
    have hletter : ∀ {a b : CodeUnit}, 65 ≤ a.toNat → a.toNat ≤ 90 → b.toNat = a.toNat + 32 →
        ∃ i : Fin 26, a = UInt16.ofNat (65 + i) ∧ b = UInt16.ofNat (97 + i) := by
      intro a b hlow hhigh hb
      refine ⟨⟨a.toNat - 65, by omega⟩, UInt16.toNat_inj.1 ?_, UInt16.toNat_inj.1 ?_⟩ <;>
        simp only [UInt16.toNat_ofNat'] <;> omega
    split at hnat
    · next hu =>
        split at hnat
        · obtain rfl : u = v := UInt16.toNat_inj.1 (by omega)
          exact .refl u
        · obtain ⟨i, rfl, rfl⟩ := hletter hu.1 hu.2 hnat.symm
          exact .small i
    · split at hnat
      · next hv =>
          obtain ⟨i, rfl, rfl⟩ := hletter hv.1 hv.2 hnat
          exact .capital i
      · obtain rfl : u = v := UInt16.toNat_inj.1 hnat
        exact .refl u

/-- Texts differ at most in ASCII case if their ASCII capitals made small agree. -/
theorem sameLetters_iff {t t' : Text} : SameLetters t t' ↔ lower t = lower t' := by
  have hunits : SameLetter = fun u v => lowerUnit u = lowerUnit v :=
    funext fun u => funext fun v => propext sameLetter_iff
  rw [SameLetters, hunits, lower, lower, ← List.forall₂_eq_eq_eq, List.forall₂_map_left_iff,
    List.forall₂_map_right_iff]

theorem isBlank_lowerUnit (u : CodeUnit) : isBlank (lowerUnit u) = isBlank u := by
  simp only [isBlank, toNat_lowerUnit]
  split
  · next hcapital =>
      rw [Bool.eq_iff_iff]
      simp
      omega
  · rfl

/-- White space at the ends is gone before or after the ASCII capitals are made small. -/
theorem lower_trim (t : Text) : lower (trim t) = trim (lower t) := by
  have hblank : isBlank ∘ lowerUnit = isBlank := funext isBlank_lowerUnit
  simp only [lower, trim, List.dropWhile_map, ← List.map_reverse, hblank]

/-! ### The letters of all scripts -/

/-- The text is in ASCII. -/
def IsAscii (t : Text) : Prop := ∀ u ∈ t, u.toNat < 128

/-- The text is in ASCII, and has no `k`, the one letter in it that capitals elsewhere become. -/
def IsPlain (t : Text) : Prop := ∀ u ∈ t, u.toNat < 128 ∧ u ≠ unit 'k'

theorem codePoints_of_isAscii {t : Text} (h : IsAscii t) : codePoints t = t.map UInt16.toNat := by
  fun_induction codePoints t with
  | case1 => rfl
  | case2 u => rfl
  | case3 u v rest hpair ih =>
      have hu := h u (by simp)
      simp [isLead] at hpair
      omega
  | case4 u v rest hpair ih =>
      rw [ih fun w hw => h w (List.mem_cons_of_mem _ hw)]
      rfl

theorem ofCodePoint_toNat (u : CodeUnit) : ofCodePoint u.toNat = [u] := by
  rw [ofCodePoint, if_pos u.toNat_lt, UInt16.ofNat_toNat]

/-- Only the first run of capitals is in ASCII. -/
theorem smallLetter?_of_lt {c : Nat} (hc : c < 128) :
    smallLetter? c = if 65 ≤ c ∧ c ≤ 90 then some (c + 32) else none := by
  have hrest : ∀ r ∈ capitalRuns.tail, 128 ≤ r.first := by decide +kernel
  have hnone : capitalRuns.tail.find? (·.holds c) = none := by
    refine List.find?_eq_none.2 fun r hr => ?_
    have := hrest r hr
    simp only [CapitalRun.holds, Bool.and_eq_true, decide_eq_true_eq]
    omega
  have hfirst : CapitalRun.holds ⟨0x41, 0x5A, 1, 0x61⟩ c = decide (65 ≤ c ∧ c ≤ 90) := by
    simp [CapitalRun.holds, Nat.mod_one]
  have hruns : capitalRuns = ⟨0x41, 0x5A, 1, 0x61⟩ :: capitalRuns.tail := rfl
  rw [smallLetter?, hruns, List.find?_cons, hnone, hfirst]
  by_cases hcapital : 65 ≤ c ∧ c ≤ 90
  · have hsmall : 0x61 + (c - 0x41) = c + 32 := by omega
    rw [decide_eq_true hcapital, if_pos hcapital]
    exact congrArg some hsmall
  · rw [decide_eq_false hcapital, if_neg hcapital]
    rfl

/-- In ASCII, only capitals change. -/
theorem smallForm_toNat (final : Bool) {u : CodeUnit} (hu : u.toNat < 128) :
    smallForm final u.toNat = [(lowerUnit u).toNat] := by
  rw [smallForm, if_neg (by omega), if_neg (by omega), smallLetter?_of_lt hu, toNat_lowerUnit]
  split <;> rfl

theorem smallForms_of_isAscii (ends : WordEnd) (before : List Nat) {t : Text} (h : IsAscii t) :
    smallForms ends before (t.map UInt16.toNat) = (lower t).map UInt16.toNat := by
  induction t generalizing before with
  | nil => rfl
  | cons u t ih =>
      rw [List.map_cons, smallForms, smallForm_toNat _ (h u (by simp)),
        ih _ fun v hv => h v (List.mem_cons_of_mem _ hv)]
      rfl

/-- In ASCII, the small letters are those of the ASCII capitals. -/
theorem lowercase_of_isAscii (ends : WordEnd) {t : Text} (h : IsAscii t) :
    lowercase ends t = lower t := by
  rw [lowercase, codePoints_of_isAscii h, smallForms_of_isAscii ends [] h, List.flatMap_map]
  simp only [ofCodePoint_toNat, List.flatMap_singleton']

theorem le_pairPoint (lead trail : CodeUnit) : 0x10000 ≤ pairPoint lead trail :=
  Nat.le_trans (Nat.le_add_right ..) (Nat.le_add_right ..)

/-- A unit outside ASCII is a code point outside ASCII or half of one. -/
theorem exists_codePoint_of_not_isAscii {t : Text} (h : ¬ IsAscii t) :
    ∃ c ∈ codePoints t, 128 ≤ c := by
  simp only [IsAscii, not_forall, Nat.not_lt] at h
  obtain ⟨w, hw, hlarge⟩ := h
  fun_induction codePoints t with
  | case1 => simp at hw
  | case2 u =>
      obtain rfl := List.mem_singleton.1 hw
      exact ⟨_, List.mem_singleton_self _, hlarge⟩
  | case3 u v rest hpair ih =>
      exact ⟨_, List.mem_cons_self, Nat.le_trans (by decide) (le_pairPoint u v)⟩
  | case4 u v rest hpair ih =>
      rcases List.mem_cons.1 hw with rfl | hw
      · exact ⟨_, List.mem_cons_self, hlarge⟩
      · obtain ⟨c, hc, hclarge⟩ := ih hw
        exact ⟨c, List.mem_cons_of_mem _ hc, hclarge⟩

/-- No run of capitals outside ASCII has small letters inside, but for the one that becomes `k`. -/
theorem le_of_smallLetter? {c s : Nat} (hc : 128 ≤ c) (h : smallLetter? c = some s) :
    128 ≤ s ∨ s = 0x6B := by
  have hruns : ∀ r ∈ capitalRuns,
      r.last < 128 ∨ 128 ≤ r.small ∨ (r.last = r.first ∧ r.small = 0x6B) := by
    decide +kernel
  obtain ⟨r, hr, rfl⟩ := Option.map_eq_some_iff.1 h
  have hholds := List.find?_some hr
  simp only [CapitalRun.holds, Bool.and_eq_true, decide_eq_true_eq] at hholds
  rcases hruns r (List.mem_of_find?_eq_some hr) with hlast | hsmall | hone <;> omega

/-- What a code point outside ASCII becomes is not all plain. -/
theorem exists_smallForm_of_le (final : Bool) {c : Nat} (hc : 128 ≤ c) :
    ∃ s ∈ smallForm final c, 128 ≤ s ∨ s = 0x6B := by
  rw [smallForm]
  split
  · exact ⟨0x307, by simp, .inl (by decide)⟩
  · split
    · refine ⟨_, List.mem_singleton_self _, .inl ?_⟩
      split <;> decide
    · refine ⟨_, List.mem_singleton_self _, ?_⟩
      cases h : smallLetter? c with
      | none => exact .inl hc
      | some s => exact le_of_smallLetter? hc h

/-- Each code point is made small somewhere. -/
theorem exists_smallForm_subset (ends : WordEnd) (before : List Nat) {cs : List Nat} {c : Nat}
    (hc : c ∈ cs) : ∃ final, smallForm final c ⊆ smallForms ends before cs := by
  induction cs generalizing before with
  | nil => simp at hc
  | cons d cs ih =>
      rcases List.mem_cons.1 hc with rfl | hc
      · exact ⟨_, List.subset_append_left ..⟩
      · obtain ⟨final, hsub⟩ := ih (d :: before) hc
        exact ⟨final, List.Subset.trans hsub (List.subset_append_right ..)⟩

theorem exists_unit_of_le {c : Nat} (hc : 128 ≤ c) : ∃ u ∈ ofCodePoint c, 128 ≤ u.toNat := by
  rw [ofCodePoint]
  split
  · next hunit =>
      refine ⟨_, List.mem_singleton_self _, ?_⟩
      rw [UInt16.toNat_ofNat', Nat.mod_eq_of_lt hunit]
      exact hc
  · -- the trailing surrogate does not depend on how large the code point is
    refine ⟨_, List.mem_cons_of_mem _ (List.mem_singleton_self _), ?_⟩
    rw [UInt16.toNat_ofNat']
    omega

/-- Nothing outside ASCII becomes plain. -/
theorem isAscii_of_isPlain_lowercase {ends : WordEnd} {t : Text} (h : IsPlain (lowercase ends t)) :
    IsAscii t := by
  by_contra hnot
  obtain ⟨c, hc, hlarge⟩ := exists_codePoint_of_not_isAscii hnot
  obtain ⟨final, hsub⟩ := exists_smallForm_subset ends [] hc
  obtain ⟨s, hs, hforeign⟩ := exists_smallForm_of_le final hlarge
  have hunits : ∀ u ∈ ofCodePoint s, u ∈ lowercase ends t := fun u hu =>
    List.mem_flatMap.2 ⟨s, hsub hs, hu⟩
  rcases hforeign with hs | rfl
  · obtain ⟨u, hu, hularge⟩ := exists_unit_of_le hs
    have := (h u (hunits u hu)).1
    omega
  · exact (h (unit 'k') (hunits _ (by decide))).2 rfl

/-- ASCII capitals made small are in ASCII only if the text is. -/
theorem isAscii_of_isAscii_lower {t : Text} (h : IsAscii (lower t)) : IsAscii t := by
  intro u hu
  have hsmall := h (lowerUnit u) (List.mem_map_of_mem hu)
  rw [toNat_lowerUnit] at hsmall
  split at hsmall <;> omega

/-- **The small letters of a text are a plain text exactly when its ASCII capitals made small are**,
wherever words may end. -/
theorem lowercase_eq_iff (ends : WordEnd) {t plain : Text} (hplain : IsPlain plain) :
    lowercase ends t = plain ↔ lower t = plain := by
  constructor
  · rintro rfl
    exact (lowercase_of_isAscii ends (isAscii_of_isPlain_lowercase hplain)).symm
  · rintro rfl
    exact lowercase_of_isAscii ends (isAscii_of_isAscii_lower fun u hu => (hplain u hu).1)

end Text

end WireCodec
