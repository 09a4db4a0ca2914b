import WireCodec.Proofs.Blob

/-
**Base sixty-four with line breaks.**

The padded text of some bytes may be broken into lines anywhere.  It is read as the bytes unless
the rules of `WireCodec.Blob` give it to base sixteen: that happens when it carries the mark, and
when it holds base sixteen digits only.  Then the bytes are lost, because the two bases need
different numbers of units for them.

Main definitions:

* `Blob.Wrapped`: a text with line breaks put in anywhere.

Main results:

* `Base64.exists_encode`: the padded text of bytes is letters with the bits of the bytes, zeros
  behind them, and padding;
* `Blob.not_denotes_of_base16`: a reading in base sixteen never gives the bytes;
* `Blob.ofText_wrapped`: which texts with line breaks are read as their bytes.
-/

set_option relaxedAutoImplicit false
set_option autoImplicit false

namespace WireCodec

/-! ### The padded text of bytes -/

/-- The bits of bytes, one after another. -/
def Bits.ofBytes (bytes : Bytes) : List Bool := bytes.flatMap fun b => Bits.ofNat 8 b.toNat

theorem Bits.length_ofBytes (bytes : Bytes) : (Bits.ofBytes bytes).length = 8 * bytes.length :=
  Bits.length_flatMap_ofNat 8 UInt8.toNat bytes

/-- Bytes are the bytes of their bits, and of no more than seven bits behind them. -/
theorem Bits.bytes_ofBytes_append (bytes : Bytes) {spare : List Bool} (h : spare.length < 8) :
    Bits.bytes (Bits.ofBytes bytes ++ spare) = bytes := by
  induction bytes with
  | nil => exact Bits.bytes_of_length_lt h
  | cons b bytes ih =>
      rw [Bits.ofBytes] at ih ⊢
      rw [List.flatMap_cons, List.append_assoc, Bits.bytes_ofNat_append, ih, UInt8.ofNat_toNat]

namespace Base64

/-- **The padded text of bytes is letters and padding in whole groups of four.**  The bits of the
letters are those of the bytes, and two zeros for each unit of padding. -/
theorem exists_encode (bytes : Bytes) :
    ∃ (ss : List Sextet) (n : Nat), encode bytes = ss.map letter ++ List.replicate n pad ∧
      n ≤ 2 ∧ (ss.length + n) % 4 = 0 ∧
      bits ss = Bits.ofBytes bytes ++ List.replicate (2 * n) false := by
  fun_induction encode bytes with
  | case1 x y z rest ih =>
      obtain ⟨ss, n, hrest, hn, hgroups, hbits⟩ := ih
      have hy := y.toNat_lt
      have hz := z.toNat_lt
      refine ⟨⟨x.toNat / 4, by have := x.toNat_lt; omega⟩
        :: ⟨16 * (x.toNat % 4) + y.toNat / 16, by omega⟩
        :: ⟨4 * (y.toNat % 16) + z.toNat / 64, by omega⟩
        :: ⟨z.toNat % 64, by omega⟩ :: ss, n, by rw [hrest]; rfl, hn, ?_, ?_⟩
      · simp only [List.length_cons]
        omega
      · -- each byte is put together again from two letters
        have hx : 4 * (x.toNat / 4) + (16 * (x.toNat % 4) + y.toNat / 16) / 16 = x.toNat := by omega
        have hy' : 16 * ((16 * (x.toNat % 4) + y.toNat / 16) % 16)
            + (4 * (y.toNat % 16) + z.toNat / 64) / 4 = y.toNat := by omega
        have hz' : 64 * ((4 * (y.toNat % 16) + z.toNat / 64) % 4) + z.toNat % 64 = z.toNat := by
          omega
        rw [bits_group, hbits]
        simp only [hx, hy', hz', Bits.ofBytes, List.flatMap_cons, List.append_assoc]
  | case2 x y =>
      have hy := y.toNat_lt
      refine ⟨[⟨x.toNat / 4, by have := x.toNat_lt; omega⟩,
        ⟨16 * (x.toNat % 4) + y.toNat / 16, by omega⟩, ⟨4 * (y.toNat % 16), by omega⟩], 1, rfl,
        by omega, by simp, ?_⟩
      have hx : 4 * (x.toNat / 4) + (16 * (x.toNat % 4) + y.toNat / 16) / 16 = x.toNat := by omega
      have hy' : 16 * ((16 * (x.toNat % 4) + y.toNat / 16) % 16) + 4 * (y.toNat % 16) / 4 =
          y.toNat := by omega
      have hspare : 4 * (y.toNat % 16) % 4 = 0 := by omega
      rw [bits_three]
      simp only [hx, hy', hspare, Bits.ofBytes, List.flatMap_cons, List.flatMap_nil,
        List.append_assoc, List.nil_append]
      rfl
  | case3 x =>
      refine ⟨[⟨x.toNat / 4, by have := x.toNat_lt; omega⟩, ⟨16 * (x.toNat % 4), by omega⟩], 2,
        rfl, by omega, by simp, ?_⟩
      have hx : 4 * (x.toNat / 4) + 16 * (x.toNat % 4) / 16 = x.toNat := by omega
      have hspare : 16 * (x.toNat % 4) % 16 = 0 := by omega
      rw [bits_two]
      simp only [hx, hspare, Bits.ofBytes, List.flatMap_cons, List.flatMap_nil, List.append_assoc,
        List.nil_append]
      rfl
  | case4 => exact ⟨[], 0, rfl, by omega, rfl, rfl⟩

/-- The padded text of bytes writes them. -/
theorem writes_encode (bytes : Bytes) : Writes (encode bytes) bytes := by
  obtain ⟨ss, n, hencode, hn, hgroups, hbits⟩ := exists_encode bytes
  refine ⟨by simp [hencode, hgroups], ss, n, hn, hencode, ?_⟩
  rw [hbits, Bits.bytes_ofBytes_append]
  rw [List.length_replicate]
  omega

/-- Without padding there are four letters for three bytes. -/
theorem length_encode_of_not_mem_pad {bytes : Bytes} (h : pad ∉ encode bytes) :
    3 * (encode bytes).length = 4 * bytes.length := by
  obtain ⟨ss, n, hencode, -, -, hbits⟩ := exists_encode bytes
  have hn : n = 0 := by
    by_contra hn
    refine h ?_
    rw [hencode]
    exact List.mem_append_right _ (List.mem_replicate.2 ⟨hn, rfl⟩)
  subst hn
  have hlen := congrArg List.length hbits
  rw [length_bits, List.length_append, Bits.length_ofBytes, List.length_replicate] at hlen
  have hletters : (encode bytes).length = ss.length := by simp [hencode]
  omega

end Base64

namespace Blob

/-! ### Line breaks -/

/-- The second text is the first with carriage returns and line feeds put in anywhere. -/
inductive Wrapped : Text → Text → Prop where
  | nil : Wrapped [] []
  | unit (u : CodeUnit) {t wrapped : Text} (h : Wrapped t wrapped) :
      Wrapped (u :: t) (u :: wrapped)
  | lineBreak {u : CodeUnit} (hu : u = 0x0D ∨ u = 0x0A) {t wrapped : Text}
      (h : Wrapped t wrapped) : Wrapped t (u :: wrapped)

/-- Without its line breaks a text is what it was before they were put in. -/
theorem Wrapped.withoutBreaks_eq {t wrapped : Text} (h : Wrapped t wrapped)
    (ht : ∀ u ∈ t, isLineBreak u = false) : withoutBreaks wrapped = t := by
  induction h with
  | nil => rfl
  | unit u h ih =>
      have hu : isLineBreak u = false := ht u List.mem_cons_self
      rw [withoutBreaks, List.filter_cons, hu]
      exact congrArg (u :: ·) (ih fun v hv => ht v (List.mem_cons_of_mem u hv))
  | lineBreak hu h ih =>
      rw [withoutBreaks, List.filter_cons]
      rcases hu with rfl | rfl
      · exact ih ht
      · exact ih ht

/-- Nothing is taken out of a text without line breaks. -/
theorem withoutBreaks_eq_self {t : Text} (h : ∀ u ∈ t, isLineBreak u = false) :
    withoutBreaks t = t := by
  rw [withoutBreaks, List.filter_eq_self]
  intro u hu
  rw [h u hu]
  rfl

/-- Neither letters nor padding break a line. -/
theorem isLineBreak_of_mem_encode {bytes : Bytes} {u : CodeUnit} (h : u ∈ Base64.encode bytes) :
    isLineBreak u = false := by
  have hletter : ∀ s : Sextet, isLineBreak (Base64.letter s) = false := by decide
  obtain ⟨ss, n, hencode, -⟩ := Base64.exists_encode bytes
  rw [hencode] at h
  rcases List.mem_append.1 h with h | h
  · obtain ⟨s, -, rfl⟩ := List.mem_map.1 h
    exact hletter s
  · rw [List.eq_of_mem_replicate h]
    decide

/-! ### Readings in base sixteen -/

/-- The units of base sixteen: the digits and the two units of the mark. -/
def base16Units : Text := Base16.mark ++ Base16.digitUnits

/-- In units of base sixteen there is neither a line break nor padding. -/
theorem not_lineBreak_of_mem_base16Units {u : CodeUnit} (h : u ∈ base16Units) :
    isLineBreak u = false ∧ u ≠ Base64.pad := by
  have hall : base16Units.all (fun u => !isLineBreak u && u != Base64.pad) = true := by decide
  have hu := List.all_eq_true.1 hall u h
  simpa using hu

/-- A text of base sixteen units that is the text of bytes has four units for three bytes. -/
theorem length_of_base16Units {bytes : Bytes} {t : Text}
    (hwrapped : Wrapped (Base64.encode bytes) t) (h : ∀ u ∈ t, u ∈ base16Units) :
    3 * t.length = 4 * bytes.length := by
  have hbreaks : withoutBreaks t = t :=
    withoutBreaks_eq_self fun u hu => (not_lineBreak_of_mem_base16Units (h u hu)).1
  have ht : t = Base64.encode bytes := by
    rw [← hbreaks]
    exact hwrapped.withoutBreaks_eq fun u hu => isLineBreak_of_mem_encode hu
  have hpad : Base64.pad ∉ Base64.encode bytes := by
    intro hmem
    rw [← ht] at hmem
    exact (not_lineBreak_of_mem_base16Units (h _ hmem)).2 rfl
  rw [ht]
  exact Base64.length_encode_of_not_mem_pad hpad

/-- **A reading in base sixteen never gives the bytes.**  It gives one byte for two digits, where
base sixty-four gives three bytes for four letters. -/
theorem not_denotes_of_base16 {bytes : Bytes} (hne : bytes ≠ []) {t : Text}
    (hwrapped : Wrapped (Base64.encode bytes) t)
    (h : Base16.mark <+: t ∨ ∀ u ∈ t, u ∈ Base16.digitUnits) : ¬ Denotes t bytes := by
  have hpos : 0 < bytes.length := List.length_pos_iff.2 hne
  have hlength : ∀ {digits : Text}, Base16.Writes digits bytes → digits.length = 2 * bytes.length ∧
      ∀ u ∈ digits, u ∈ Base16.digitUnits := by
    intro digits hw
    exact ⟨hw.length_eq, (Base16.exists_writes_iff.1 ⟨bytes, hw⟩).2⟩
  intro hdenotes
  cases hdenotes with
  | @marked digits _ hw =>
      obtain ⟨hlen, hdigits⟩ := hlength hw
      have hunits := length_of_base16Units hwrapped fun u hu => by
        rcases List.mem_append.1 hu with hu | hu
        · exact List.mem_append_left _ hu
        · exact List.mem_append_right _ (hdigits u hu)
      rw [List.length_append] at hunits
      omega
  | bare hmark hpad hne' hw =>
      obtain ⟨hlen, hdigits⟩ := hlength hw
      have hunits := length_of_base16Units hwrapped fun u hu =>
        List.mem_append_right _ (hdigits u hu)
      omega
  | base64 hneeds hne' hw =>
      rcases h with hmark | hdigits
      · exact hneeds.not_marked hmark
      · -- base sixteen digits in whole groups of four are digit pairs
        have hunits := length_of_base16Units hwrapped fun u hu =>
          List.mem_append_right _ (hdigits u hu)
        rcases hneeds.not_digits with hpad | hnil | hodd | ⟨u, hu, hdigit⟩
        · have hmem := List.mem_of_getLast? hpad
          exact (not_lineBreak_of_mem_base16Units
            (List.mem_append_right _ (hdigits _ hmem))).2 rfl
        · rw [hnil, List.length_nil] at hunits
          omega
        · omega
        · exact hdigit (hdigits u hu)

/-! ### Readings in base sixty-four -/

/-- Without the mark and with a unit that is no digit, the text denotes the bytes. -/
theorem denotes_of_wrapped {bytes : Bytes} (hne : bytes ≠ []) {t : Text}
    (hwrapped : Wrapped (Base64.encode bytes) t) (hmark : ¬ Base16.mark <+: t)
    (hdigit : ∃ u ∈ t, u ∉ Base16.digitUnits) : Denotes t bytes := by
  have hbreaks : withoutBreaks t = Base64.encode bytes :=
    hwrapped.withoutBreaks_eq fun u hu => isLineBreak_of_mem_encode hu
  refine .base64 ⟨hmark, .inr (.inr (.inr hdigit))⟩ ?_ ?_
  · rw [hbreaks]
    intro hnil
    have hw := Base64.writes_encode bytes
    rw [hnil] at hw
    obtain ⟨-, ss, n, -, ht, hbytes⟩ := hw
    have hss : ss = [] := List.map_eq_nil_iff.1 (List.append_eq_nil_iff.1 ht.symm).1
    rw [hss] at hbytes
    exact hne hbytes
  · rw [hbreaks]
    exact Base64.writes_encode bytes

/-- **Which texts with line breaks are read as their bytes**: those that do not carry the mark and
hold a unit that is no base sixteen digit.  Any other is refused or read as other bytes. -/
theorem ofText_wrapped {bytes : Bytes} (hne : bytes ≠ []) {t : Text}
    (hwrapped : Wrapped (Base64.encode bytes) t) :
    ((ofText t).outcome = .ok ⟨bytes⟩ ↔
      ¬ Base16.mark <+: t ∧ ∃ u ∈ t, u ∉ Base16.digitUnits) ∧
    (Base16.mark <+: t ∨ (∀ u ∈ t, u ∈ Base16.digitUnits) →
      (∃ e, (ofText t).outcome = .error e) ∨
        ∃ b, (ofText t).outcome = .ok b ∧ b.bytes ≠ bytes) := by
  refine ⟨?_, fun h => ?_⟩
  · rw [outcome_ofText_eq_ok_iff]
    constructor
    · intro hdenotes
      by_contra hambiguous
      refine not_denotes_of_base16 hne hwrapped ?_ hdenotes
      by_cases hmark : Base16.mark <+: t
      · exact .inl hmark
      · refine .inr fun u hu => ?_
        by_contra hdigit
        exact hambiguous ⟨hmark, u, hu, hdigit⟩
    · rintro ⟨hmark, hdigit⟩
      exact denotes_of_wrapped hne hwrapped hmark hdigit
  · cases hout : (ofText t).outcome with
    | error e => exact .inl ⟨e, rfl⟩
    | ok b =>
        refine .inr ⟨b, rfl, fun hbytes => ?_⟩
        have hdenotes := outcome_ofText_eq_ok_iff.1 hout
        rw [hbytes] at hdenotes
        exact not_denotes_of_base16 hne hwrapped h hdenotes

/-- Three bytes in four letters that are digits: they are read back if the line is broken, and not
otherwise. -/
theorem ofText_wrapped_ambiguous :
    let bytes : Bytes := [0x75, 0xE6, 0x9D]
    bytes ≠ [] ∧ Wrapped (Base64.encode bytes) "de\nad" ∧ Wrapped (Base64.encode bytes) "dead" ∧
      (ofText "de\nad").outcome = .ok ⟨bytes⟩ ∧
      ((∃ e, (ofText "dead").outcome = .error e) ∨
        ∃ b, (ofText "dead").outcome = .ok b ∧ b.bytes ≠ bytes) := by
  intro bytes
  have hne : bytes ≠ [] := List.cons_ne_nil _ _
  have hencode : Base64.encode bytes = [0x64, 0x65, 0x61, 0x64] := by decide
  have hbroken : Wrapped (Base64.encode bytes) "de\nad" := by
    rw [hencode, show ("de\nad" : Text) = [0x64, 0x65, 0x0A, 0x61, 0x64] by decide]
    exact .unit _ (.unit _ (.lineBreak (.inr rfl) (.unit _ (.unit _ .nil))))
  have hwhole : Wrapped (Base64.encode bytes) "dead" := by
    rw [hencode, show ("dead" : Text) = [0x64, 0x65, 0x61, 0x64] by decide]
    exact .unit _ (.unit _ (.unit _ (.unit _ .nil)))
  have hdigits : ∀ u ∈ ("dead" : Text), u ∈ Base16.digitUnits := by
    intro u hu
    have hall : (("dead" : Text).all fun u => decide (u ∈ Base16.digitUnits)) = true := by decide
    exact of_decide_eq_true (List.all_eq_true.1 hall u hu)
  refine ⟨hne, hbroken, hwhole, ?_, ?_⟩
  · exact (ofText_wrapped hne hbroken).1.2 ⟨by decide, 0x0A, by decide, by decide⟩
  · exact (ofText_wrapped hne hwhole).2 (.inr hdigits)

end Blob

end WireCodec
