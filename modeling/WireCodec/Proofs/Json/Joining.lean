import Mathlib.Data.List.Basic
import WireCodec.Proofs.Json.Conversion
import WireCodec.Proofs.Json.Lookup

/-
**Texts joined by commas.**

A value that is written as an array names its filled places only, in the order of its members.
They are sorted, and each place up to the last is followed by a comma, filled or not.  So the text
is that of all places below the length, joined by commas, and its length is what is compared with
the limit before it is put together.

Main definitions:

* `Json.joined`: texts at all places below a length, joined by commas.

Main results:

* `Json.Value.mem_places_iff`, `Json.Value.pairwise_places`: the places that are filled, in
  ascending order;
* `Json.Value.commaSeparated_eq`: the places that are not filled are empty;
* `Json.Value.length_commaSeparated`: the length of the text;
* `Json.Value.joinItems_eq_ok_iff`, `Json.Value.joinItems_ofDoc_eq_ok_iff`: when the items of a
  value, and of a document whose chain of parents ends in an array, are joined.
-/

set_option relaxedAutoImplicit false
set_option autoImplicit false

namespace WireCodec

namespace Json

/-- Texts at all places below a length, joined by commas. -/
def joined (length : Nat) (texts : Nat → Text) : Text :=
  [comma].intercalate ((List.range length).map texts)

theorem joined_congr {length : Nat} {texts texts' : Nat → Text}
    (h : ∀ i < length, texts i = texts' i) : joined length texts = joined length texts' := by
  rw [joined, joined, List.map_congr_left fun i hi => h i (List.mem_range.1 hi)]

namespace Value

/-! ### Places -/

theorem mem_insertPlace {i j : Nat} {places : List Nat} :
    j ∈ insertPlace i places ↔ j = i ∨ j ∈ places := by
  induction places with
  | nil => simp [insertPlace]
  | cons k places ih =>
      rw [insertPlace]
      split
      · simp
      split
      · next heq => simp [heq]
      · simp only [List.mem_cons, ih]
        tauto

theorem pairwise_insertPlace {i : Nat} {places : List Nat} (h : places.Pairwise (· < ·)) :
    (insertPlace i places).Pairwise (· < ·) := by
  induction places with
  | nil => simp [insertPlace]
  | cons k places ih =>
      obtain ⟨hk, hrest⟩ := List.pairwise_cons.1 h
      rw [insertPlace]
      split
      · next hlt =>
          refine List.pairwise_cons.2 ⟨fun j hj => ?_, h⟩
          rcases List.mem_cons.1 hj with rfl | hj
          · exact hlt
          · exact Nat.lt_trans hlt (hk j hj)
      split
      · exact h
      · refine List.pairwise_cons.2 ⟨fun j hj => ?_, ih hrest⟩
        rcases mem_insertPlace.1 hj with rfl | hj
        · omega
        · exact hk j hj

variable {v : Value} {length : Nat}

/-- The places below the length that the chain of parents names. -/
theorem mem_places_iff {i : Nat} :
    i ∈ v.places length ↔ i < length ∧ Decimal.text i ∈ v.chainKeys := by
  have hfoldr : ∀ places : List Nat, i ∈ places.foldr insertPlace [] ↔ i ∈ places := by
    intro places
    induction places with
    | nil => rfl
    | cons j places ih => rw [List.foldr_cons, mem_insertPlace, ih, List.mem_cons]
  rw [places, hfoldr, List.mem_filterMap]
  constructor
  · rintro ⟨key, hkey, hplace⟩
    obtain ⟨hlt, rfl⟩ := place?_eq_some_iff.1 hplace
    exact ⟨hlt, hkey⟩
  · rintro ⟨hlt, hkey⟩
    exact ⟨_, hkey, place?_eq_some_iff.2 ⟨hlt, rfl⟩⟩

theorem pairwise_places : (v.places length).Pairwise (· < ·) := by
  rw [places]
  induction v.chainKeys.filterMap fun key => place? key length with
  | nil => exact .nil
  | cons i places ih => exact pairwise_insertPlace ih

/-! ### Commas -/

theorem intercalate_comma (t : Text) (ts : List Text) :
    [comma].intercalate (t :: ts) = t ++ ts.flatMap (comma :: ·) := by
  induction ts generalizing t with
  | nil => simp
  | cons t' ts ih => simp [ih t']

/-- Each place is written with the comma before it. -/
theorem joined_succ (n : Nat) (texts : Nat → Text) :
    joined (n + 1) texts = texts 0 ++ (List.range' 1 n).flatMap fun i => comma :: texts i := by
  rw [joined, List.range_eq_range', List.range'_succ, List.map_cons, intercalate_comma,
    List.flatMap_map]

theorem flatMap_comma_of_empty {texts : Nat → Text} {places : List Nat}
    (h : ∀ i ∈ places, texts i = []) :
    (places.flatMap fun i => comma :: texts i) = List.replicate places.length comma := by
  induction places with
  | nil => rfl
  | cons i places ih =>
      have hrest := ih fun j hj => h j (List.mem_cons_of_mem i hj)
      rw [List.flatMap_cons, hrest, h i List.mem_cons_self, List.length_cons,
        List.replicate_succ]
      rfl

/-- The places after `first`, split at one of them. -/
theorem range'_split {first i : Nat} (hfirst : first < i) (hi : i < length) :
    List.range' (first + 1) (length - 1 - first) =
      List.range' (first + 1) (i - first - 1) ++ i :: List.range' (i + 1) (length - 1 - i) := by
  have hcount : length - 1 - first = i - first - 1 + (length - 1 - i + 1) := by omega
  have hplace : first + 1 + (i - first - 1) = i := by omega
  rw [hcount, ← List.range'_append_1, hplace, List.range'_succ]

/-- What is written after the place `first`: a comma before each place, filled or not. -/
theorem commaSeparated_after {first : Nat} {places : List Nat} {texts : Nat → Text}
    (hsorted : places.Pairwise (· < ·)) (hplaces : ∀ i ∈ places, first < i ∧ i < length)
    (hempty : ∀ i, first < i → i < length → i ∉ places → texts i = []) :
    commaSeparated length first (places.map fun i => (i, texts i)) =
      (List.range' (first + 1) (length - 1 - first)).flatMap fun i => comma :: texts i := by
  induction places generalizing first with
  | nil =>
      rw [List.map_nil, commaSeparated, flatMap_comma_of_empty, List.length_range']
      intro i hi
      obtain ⟨hlt, hle⟩ := List.mem_range'_1.1 hi
      exact hempty i hlt (by omega) (by simp)
  | cons i places ih =>
      obtain ⟨hi, hrest⟩ := List.pairwise_cons.1 hsorted
      obtain ⟨hfirst, hlength⟩ := hplaces i List.mem_cons_self
      have hafter := ih hrest
        (fun j hj => ⟨hi j hj, (hplaces j (List.mem_cons_of_mem i hj)).2⟩)
        (fun j hj hj' hnot => hempty j (by omega) hj'
          (List.not_mem_cons_of_ne_of_not_mem (by omega) hnot))
      have hcommas : List.replicate (i - first) comma =
          List.replicate (i - first - 1) comma ++ [comma] := by
        rw [← List.replicate_succ']
        congr 1
        omega
      have hbetween : ∀ j ∈ List.range' (first + 1) (i - first - 1), texts j = [] := by
        intro j hj
        obtain ⟨hlt, hle⟩ := List.mem_range'_1.1 hj
        refine hempty j hlt (by omega) fun hmem => ?_
        rcases List.mem_cons.1 hmem with heq | hmem
        · omega
        · have hgt := hi j hmem
          omega
      rw [List.map_cons, commaSeparated, hafter, range'_split hfirst hlength, List.flatMap_append,
        List.flatMap_cons,
        flatMap_comma_of_empty hbetween, List.length_range', hcommas]
      simp

/-- **The places that are not filled are empty.** -/
theorem commaSeparated_eq {places : List Nat} {texts : Nat → Text}
    (hsorted : places.Pairwise (· < ·)) (hplaces : ∀ i ∈ places, i < length)
    (hempty : ∀ i < length, i ∉ places → texts i = []) :
    commaSeparated length 0 (places.map fun i => (i, texts i)) = joined length texts := by
  cases length with
  | zero =>
      have hnone : places = [] := List.eq_nil_iff_forall_not_mem.2 fun i hi => by
        have hlt := hplaces i hi
        omega
      rw [hnone]
      rfl
  | succ n =>
      rw [joined_succ]
      by_cases hzero : 0 ∈ places
      · -- the first place is the head of the list, for nothing is before it
        obtain ⟨i, rest, rfl⟩ := List.exists_cons_of_ne_nil (List.ne_nil_of_mem hzero)
        obtain ⟨hi, hrest⟩ := List.pairwise_cons.1 hsorted
        have hhead : i = 0 := by
          rcases List.mem_cons.1 hzero with heq | hmem
          · exact heq.symm
          · have hlt := hi 0 hmem
            omega
        subst hhead
        rw [List.map_cons, commaSeparated, commaSeparated_after hrest]
        · rfl
        · exact fun j hj => ⟨hi j hj, hplaces j (List.mem_cons_of_mem 0 hj)⟩
        · exact fun j hj hj' hnot => hempty j hj'
            (List.not_mem_cons_of_ne_of_not_mem (by omega) hnot)
      · rw [commaSeparated_after hsorted, hempty 0 (by omega) hzero]
        · rfl
        · exact fun j hj => ⟨Nat.pos_of_ne_zero fun heq => hzero (heq ▸ hj), hplaces j hj⟩
        · exact fun j _ hj' hnot => hempty j hj' hnot

/-- The length of the text, as it is counted before the text is put together. -/
theorem length_commaSeparated {first count : Nat} {parts : List (Nat × Text)}
    (hsorted : (parts.map Prod.fst).Pairwise (· < ·))
    (hplaces : ∀ part ∈ parts, first ≤ part.1 ∧ part.1 < length) (hfirst : first ≤ length - 1) :
    (commaSeparated length first parts).length + first + count =
      parts.foldl (fun n part => n + part.2.length) (length - 1 + count) := by
  induction parts generalizing first count with
  | nil =>
      rw [commaSeparated, List.length_replicate, List.foldl_nil]
      omega
  | cons part parts ih =>
      obtain ⟨i, t⟩ := part
      obtain ⟨hi, hrest⟩ := List.pairwise_cons.1 hsorted
      obtain ⟨hle, hlt⟩ := hplaces (i, t) List.mem_cons_self
      have hafter : (commaSeparated length i parts).length + i + (count + t.length) =
          parts.foldl (fun n part => n + part.2.length) (length - 1 + (count + t.length)) :=
        ih hrest (fun part' hpart' => ⟨Nat.le_of_lt (hi _ (List.mem_map_of_mem hpart')),
          (hplaces part' (List.mem_cons_of_mem _ hpart')).2⟩) (by omega)
      rw [List.foldl_cons, Nat.add_assoc (length - 1), ← hafter, commaSeparated,
        List.length_append, List.length_append, List.length_replicate]
      omega

/-! ### Joined items -/

section

variable {simplify : Wanted → Value → Except Misuse Value}

/-- What stands at a place is known by the place. -/
theorem fst_of_joinPart {i : Nat} {part : Nat × Text} (h : joinPart simplify v i = .ok part) :
    part.1 = i := by
  rw [joinPart] at h
  split at h
  · rw [← Except.ok.inj h]
  · rw [← Except.ok.inj h]
  · obtain ⟨x, -, rfl⟩ := exists_of_map_eq_ok h
    rfl

/-- The items are joined unless the text is too long. -/
theorem joinItems_of_parts {x : Value} {texts : Nat → Text}
    (hx : simplify .number (v.get lengthKey) = .ok x) (hlength : x.lengthOf = .ok length)
    (hparts : ∀ i ∈ v.places length, joinPart simplify v i = .ok (i, texts i))
    (hempty : ∀ i < length, i ∉ v.places length → texts i = []) :
    joinItems simplify v =
      if (joined length texts).length ≤ maxTextLength then .ok (joined length texts)
      else .error .textTooLong := by
  have hplaces : ∀ i ∈ v.places length, i < length := fun i hi => (mem_places_iff.1 hi).1
  have hsorted : (v.places length).Pairwise (· < ·) := pairwise_places
  have hjoined := commaSeparated_eq hsorted hplaces hempty
  have hcount : (joined length texts).length =
      ((v.places length).map fun i => (i, texts i)).foldl (fun n part => n + part.2.length)
        (length - 1) := by
    rw [← hjoined]
    refine @length_commaSeparated length 0 0 _ ?_ ?_ (Nat.zero_le _)
    · simpa [List.map_map, Function.comp_def] using hsorted
    · simpa using hplaces
  have hmap := mapM_eq_ok_of_forall hparts
  rw [joinItems_eq, bind_of_eq_ok hx, bind_of_eq_ok hlength, bind_of_eq_ok hmap, ← hcount, hjoined]

/-- **When the items of a value are joined**: its length is a length, each place below it that is
filled has a text, and the joined text is not too long. -/
theorem joinItems_eq_ok_iff {t : Text} :
    joinItems simplify v = .ok t ↔ ∃ x length texts,
      simplify .number (v.get lengthKey) = .ok x ∧ x.lengthOf = .ok length ∧
      (∀ i ∈ v.places length, joinPart simplify v i = .ok (i, texts i)) ∧
      (∀ i < length, i ∉ v.places length → texts i = []) ∧
      (joined length texts).length ≤ maxTextLength ∧ joined length texts = t := by
  constructor
  · intro h
    have hbind := h
    rw [joinItems_eq] at hbind
    obtain ⟨x, hx, hrest⟩ := exists_of_bind_eq_ok hbind
    obtain ⟨length, hlength, hrest⟩ := exists_of_bind_eq_ok hrest
    obtain ⟨parts, hmap, -⟩ := exists_of_bind_eq_ok hrest
    have hpart : ∀ i, ∃ t, (i ∈ v.places length → joinPart simplify v i = .ok (i, t)) ∧
        (i ∉ v.places length → t = []) := by
      intro i
      by_cases hi : i ∈ v.places length
      · obtain ⟨part, hpart⟩ := exists_of_mapM_eq_ok hmap i hi
        refine ⟨part.2, fun _ => ?_, fun hnot => absurd hi hnot⟩
        rw [hpart, ← fst_of_joinPart hpart]
      · exact ⟨[], fun hmem => absurd hmem hi, fun _ => rfl⟩
    choose texts hparts hempty using hpart
    rw [joinItems_of_parts hx hlength hparts fun i _ => hempty i] at h
    split at h
    next hshort =>
      exact ⟨x, length, texts, hx, hlength, hparts, fun i _ => hempty i, hshort,
        Except.ok.inj h⟩
    next => cases h
  · rintro ⟨x, length, texts, hx, hlength, hparts, hempty, hshort, rfl⟩
    rw [joinItems_of_parts hx hlength hparts hempty, if_pos hshort]

end

/-! ### Arrays -/

section

variable {d : Doc} {items : List Doc} (hend : d.EndsIn (.array items))
include hend

/-- A place that no document fills is missing. -/
theorem get_place_of_omits {i : Nat} (h : d.Omits (Decimal.text i)) :
    (ofDoc .lossless d).get (Decimal.text i) = .missing := by
  have hlength : Decimal.text i ≠ lengthKey := text_ne_of_read? rfl i
  have hparent : Decimal.text i ≠ parentKey := text_ne_of_read? rfl i
  have hmethod : ∀ r : Root, Decimal.text i ∉ r.methods := by
    intro r hmem
    have hread := read?_of_mem_methods hmem
    rw [Decimal.read?_text] at hread
    cases hread
  have hplace : place? (Decimal.text i) items.length = none := by
    rw [Option.eq_none_iff_forall_ne_some]
    intro j hj
    have hlt := (place?_eq_some_iff.1 hj).1
    exact hend.omits h _ (.item hj (List.getElem?_eq_getElem hlt))
  have hnone : ∀ r : Root, rootOwn? r (Decimal.text i) = none :=
    fun r => rootOwn?_of_not_mem (hmethod r) fun _ => hlength
  have hsupplied : supplied? (.root .array) (Decimal.text i) = none := by
    rw [supplied?, hnone, hnone]
    rfl
  rw [get_of_ne_parentKey hparent, hend.find? hparent h, ofDoc,
    find?_array, own?, if_neg hlength, ofItems_eq_map, List.length_map,
    hplace, hsupplied]
  rfl

/-- The length of an array is counted unless it is written. -/
theorem get_length_of_omits (h : d.Omits lengthKey) :
    (ofDoc .lossless d).get lengthKey = ofLength items.length := by
  rw [get_of_ne_parentKey (by decide), hend.find? (by decide) h, ofDoc,
    find?_array, own?, if_pos rfl, ofItems_eq_map, List.length_map]
  rfl

variable {simplify : Wanted → Value → Except Misuse Value}

/-- Null and what is missing have no text among the items. -/
theorem joinPart_of_empty {i : Nat} (h : ∀ y, d.Has (Decimal.text i) y → y = .null) :
    joinPart simplify (ofDoc .lossless d) i = .ok (i, []) := by
  rw [joinPart]
  by_cases homits : d.Omits (Decimal.text i)
  · rw [get_place_of_omits hend homits]
  · obtain ⟨y, hy⟩ := not_forall_not.1 homits
    rw [hy.get_eq (text_ne_of_read? rfl i), h y hy, ofDoc]

omit hend in
theorem joinPart_of_has {i : Nat} {y : Doc} (h : d.Has (Decimal.text i) y) (hy : y ≠ .null) :
    joinPart simplify (ofDoc .lossless d) i =
      (simplify .text (ofDoc .lossless y)).map fun x => (i, x.spell) := by
  rw [joinPart, h.get_eq (text_ne_of_read? rfl i)]
  split
  next hmissing => exact absurd hmissing (ofDoc_ne_missing .lossless y)
  next hnull => exact absurd (ofDoc_eq_null hnull) hy
  next => rfl

/-- A place has a value without members for its text: that of the one document at it, or an empty
text. -/
theorem exists_part {length i : Nat} {t : Text} (hi : i < length)
    (hplace : i ∈ (ofDoc .lossless d).places length →
      joinPart simplify (ofDoc .lossless d) i = .ok (i, t))
    (hempty : i ∉ (ofDoc .lossless d).places length → t = []) :
    ∃ part : Value,
      (∀ y, d.Has (Decimal.text i) y → y ≠ .null →
        simplify .text (ofDoc .lossless y) = .ok part) ∧
      ((∀ y, d.Has (Decimal.text i) y → y = .null) → part = .text []) ∧ part.spell = t := by
  by_cases hnull : ∀ y, d.Has (Decimal.text i) y → y = .null
  · refine ⟨.text [], fun y hy hne => absurd (hnull y hy) hne, fun _ => rfl, ?_⟩
    rw [spell]
    by_cases hmem : i ∈ (ofDoc .lossless d).places length
    · have hpart := hplace hmem
      rw [joinPart_of_empty hend hnull] at hpart
      exact (Prod.mk.inj (Except.ok.inj hpart)).2
    · exact (hempty hmem).symm
  · simp only [not_forall] at hnull
    obtain ⟨y, hy, hne⟩ := hnull
    have hkey : Decimal.text i ≠ parentKey := text_ne_of_read? rfl i
    have hpart := hplace (mem_places_iff.2 ⟨hi, hy.mem_chainKeys hkey⟩)
    rw [joinPart_of_has hy hne] at hpart
    obtain ⟨part, hsimplify, heq⟩ := exists_of_map_eq_ok hpart
    refine ⟨part, fun y' hy' _ => ?_, fun hall => absurd (hall y hy) hne,
      (Prod.mk.inj heq).2⟩
    -- a place holds only one document
    rw [← hy'.get_eq hkey, hy.get_eq hkey]
    exact hsimplify

/-- **When the items of an array are joined.** -/
theorem joinItems_ofDoc_eq_ok_iff {t : Text} :
    joinItems simplify (ofDoc .lossless d) = .ok t ↔ ∃ x length, ∃ parts : Nat → Value,
      simplify .number ((ofDoc .lossless d).get lengthKey) = .ok x ∧ x.lengthOf = .ok length ∧
      (∀ i < length, ∀ y, d.Has (Decimal.text i) y → y ≠ .null →
        simplify .text (ofDoc .lossless y) = .ok (parts i)) ∧
      (∀ i < length, (∀ y, d.Has (Decimal.text i) y → y = .null) → parts i = .text []) ∧
      (joined length fun i => (parts i).spell).length ≤ maxTextLength ∧
      (joined length fun i => (parts i).spell) = t := by
  rw [joinItems_eq_ok_iff]
  constructor
  · rintro ⟨x, length, texts, hx, hlength, hparts, hempty, hshort, rfl⟩
    choose! parts hparts' using fun i (hi : i < length) =>
      exists_part hend hi (hparts i) (hempty i hi)
    have hjoined : (joined length fun i => (parts i).spell) = joined length texts :=
      joined_congr fun i hi => (hparts' i hi).2.2
    refine ⟨x, length, parts, hx, hlength, fun i hi => (hparts' i hi).1,
      fun i hi => (hparts' i hi).2.1, ?_, hjoined⟩
    rw [hjoined]
    exact hshort
  · rintro ⟨x, length, parts, hx, hlength, hparts, hempty, hshort, rfl⟩
    refine ⟨x, length, fun i => (parts i).spell, hx, hlength, ?_, ?_, hshort, rfl⟩
    · intro i hi
      have hlt := (mem_places_iff.1 hi).1
      by_cases hnull : ∀ y, d.Has (Decimal.text i) y → y = .null
      · have hspell : (parts i).spell = [] := by rw [hempty i hlt hnull, spell]
        rw [joinPart_of_empty hend hnull, ← hspell]
      · simp only [not_forall] at hnull
        obtain ⟨y, hy, hne⟩ := hnull
        rw [joinPart_of_has hy hne, hparts i hlt y hy hne]
        rfl
    · intro i hi hnot
      have hnone : ∀ y, d.Has (Decimal.text i) y → y = .null := by
        intro y hy
        have hchain := hy.mem_chainKeys (text_ne_of_read? rfl i)
        exact absurd (mem_places_iff.2 ⟨hi, hchain⟩) hnot
      change (parts i).spell = []
      rw [hempty i hi hnone, spell]

end

end Value

end Json

end WireCodec
