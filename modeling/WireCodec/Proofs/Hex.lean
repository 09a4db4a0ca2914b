import WireCodec.Hex
import WireCodec.Proofs.Base16

/-
**What a marked or unmarked text in base sixteen denotes.**

Main results:

* `Hex.ofText_eq_ok_iff`: the texts that are read as bytes, with the bytes they write;
* `Hex.ofText_of_writes`: digit pairs without a mark are among them.
-/

set_option relaxedAutoImplicit false
set_option autoImplicit false

namespace WireCodec

/-! ### The mark -/

namespace Base16

@[simp] theorem unmarked_mark_append (digits : Text) : unmarked (mark ++ digits) = digits := by
  rw [unmarked, Text.after?_eq_some.2 rfl]
  rfl

theorem after?_mark_eq_none {t : Text} (h : ¬ mark <+: t) : Text.after? mark t = none := by
  rw [Option.eq_none_iff_forall_ne_some]
  intro rest hrest
  exact h ⟨rest, (Text.after?_eq_some.1 hrest).symm⟩

theorem unmarked_of_not_marked {t : Text} (h : ¬ mark <+: t) : unmarked t = t := by
  rw [unmarked, after?_mark_eq_none h]
  rfl

/-- Digits do not begin with the mark, for its second unit is none. -/
theorem not_marked_of_digits {t : Text} (h : ∀ u ∈ t, u ∈ digitUnits) : ¬ mark <+: t := by
  rintro ⟨rest, rfl⟩
  have hx : Text.unit 'x' ∈ mark ++ rest := by simp [mark, Text.ofString, Text.ofChar]
  have hdigit := h _ hx
  revert hdigit
  decide

end Base16

namespace Hex

/-- The texts that are read as bytes, with the bytes they write. -/
theorem ofText_eq_ok_iff {t : Text} {h : Hex} :
    ofText t = .ok h ↔ t ≠ [] ∧ Base16.Writes (Base16.unmarked t) h.bytes := by
  rw [ofText]
  by_cases ht : t = []
  · simp [ht]
  · rw [if_neg ht]
    by_cases hlen : (Base16.unmarked t).length % 2 = 0
    · rw [if_neg (by simpa using hlen)]
      cases hdecode : Base16.decode (Base16.unmarked t) with
      | error fault =>
          refine ⟨fun h => by simp at h, fun hw => ?_⟩
          rw [Base16.decode_eq_ok_iff.2 hw.2] at hdecode
          simp at hdecode
      | ok bytes =>
          constructor
          · intro h
            rw [← Except.ok.inj h]
            exact ⟨ht, Base16.decode_eq_ok_iff.1 hdecode⟩
          · rintro ⟨-, hw⟩
            rw [Base16.decode_eq_ok_iff.2 hw] at hdecode
            rw [← Except.ok.inj hdecode]
    · rw [if_pos (by simpa using hlen)]
      exact ⟨fun h => by simp at h, fun hw => absurd hw.2.length_even hlen⟩

/-- Digit pairs are read without a mark in front. -/
theorem ofText_of_writes {t : Text} {bytes : Bytes} (hne : t ≠ []) (h : Base16.Writes t bytes) :
    ofText t = .ok ⟨bytes⟩ := by
  have hmark := Base16.not_marked_of_digits (Base16.exists_writes_iff.1 ⟨bytes, h⟩).2
  rw [ofText_eq_ok_iff, Base16.unmarked_of_not_marked hmark]
  exact ⟨hne, h⟩

end Hex

end WireCodec
