import WireCodec.Proofs.Json.Token

/-
**The reader reads the grammar.**

`Json.Doc.parse` takes a text and gives a document exactly if the text writes the document.  The
reader works with fuel, so both directions are inductions on the fuel, for documents, items and
members together.

Main definitions:

* `Json.ReadsDocs`, `Json.ReadsItems`, `Json.ReadsMembers`: with some fuel, all that is written in
  texts up to half as long is read;
* `Json.WritesDocs`, `Json.WritesItems`, `Json.WritesMembers`: with some fuel, all that is read is
  written;
* `Json.DocStep`: what the reader of documents can do at a unit.

Main results:

* `Json.exists_docStep`: the reader of documents does nothing else;
* `Json.Doc.parse_eq_ok_iff`: the reader gives the documents that are written, and no others;
* `Json.WrittenSpaced.exists_head`: the first unit tells the shape of what is written.
-/

set_option relaxedAutoImplicit false
set_option autoImplicit false

namespace WireCodec

namespace Json

/-! ### What stands between tokens -/

theorem skipSpace_skipSpace (t : Text) : skipSpace (skipSpace t) = skipSpace t := by
  obtain ⟨l, hl, ht⟩ := exists_blank t
  have hskip := skipSpace_append hl (skipSpace t)
  rw [← ht] at hskip
  exact hskip.symm

/-- White space does not continue a number. -/
theorem Stops.blank_append {l rest : Text} (hl : Blank l) (h : Stops rest) : Stops (l ++ rest) := by
  cases l with
  | nil => exact h
  | cons u l =>
      intro v hv
      obtain rfl := Option.some_inj.1 hv
      have hu := hl u List.mem_cons_self
      rcases isSpace_iff.1 hu with ((rfl | rfl) | rfl) | rfl <;> decide

theorem Stops.cons {u : CodeUnit} (h : beginsNumeral u = false) (rest : Text) :
    Stops (u :: rest) := by
  intro v hv
  rwa [← Option.some_inj.1 hv]

/-- A number begins with a unit that begins numbers and nothing else. -/
theorem beginsNumeral_of_ofUnit? {u : CodeUnit} (h : Doc.Shape.ofUnit? u = some .number) :
    u ≠ quote ∧ u ≠ openArray ∧ u ≠ openObject ∧ beginsNumeral u = true := by
  rw [Doc.Shape.ofUnit?] at h
  split at h
  · simp at h
  next hquote =>
  split at h
  · simp at h
  next harray =>
  split at h
  · simp at h
  next hobject =>
  refine ⟨hquote, harray, hobject, ?_⟩
  rw [beginsNumeral]
  by_cases hu : u = Decimal.minus ∨ (Digit.ofUnit? u).isSome = true
  · rcases hu with hu | hu <;> simp [hu]
  · rw [if_neg hu] at h
    split at h
    · simp at h
    · split at h <;> simp at h

/-! ### The three words -/

theorem written_of_scanWord {admits : Admission} {t rest : Text} {d : Doc}
    (h : scanWord t = .ok (d, rest)) : ∃ w, Written admits d w ∧ t = w ++ rest := by
  rw [scanWord] at h
  split at h
  · next hafter =>
      obtain ⟨rfl, rfl⟩ := Prod.mk.inj (Except.ok.inj h)
      exact ⟨_, .bool true, Text.after?_eq_some.1 hafter⟩
  · next hafter _ =>
      obtain ⟨rfl, rfl⟩ := Prod.mk.inj (Except.ok.inj h)
      exact ⟨_, .bool false, Text.after?_eq_some.1 hafter⟩
  · next hafter _ _ =>
      obtain ⟨rfl, rfl⟩ := Prod.mk.inj (Except.ok.inj h)
      exact ⟨_, .null, Text.after?_eq_some.1 hafter⟩
  · simp at h

/-! ### White space in front -/

section

variable (admits : Admission) (fuel : Nat)

theorem scanDoc_skipSpace (t : Text) :
    scanDoc admits fuel (skipSpace t) = scanDoc admits fuel t := by
  cases fuel with
  | zero => rw [scanDoc, scanDoc]
  | succ fuel => rw [scanDoc, scanDoc, skipSpace_skipSpace]

theorem scanItems_skipSpace (t : Text) :
    scanItems admits fuel (skipSpace t) = scanItems admits fuel t := by
  cases fuel with
  | zero => rw [scanItems, scanItems]
  | succ fuel => rw [scanItems, scanItems, scanDoc_skipSpace]

theorem scanKey_skipSpace (t : Text) : scanKey (skipSpace t) = scanKey t := by
  rw [scanKey, scanKey, skipSpace_skipSpace]

theorem scanMembers_skipSpace (seen : List (Text × Doc)) (t : Text) :
    scanMembers admits fuel seen (skipSpace t) = scanMembers admits fuel seen t := by
  cases fuel with
  | zero => rw [scanMembers, scanMembers]
  | succ fuel => rw [scanMembers, scanMembers, scanKey_skipSpace]

end

/-- The first unit after the white space tells the shape of the document. -/
theorem WrittenSpaced.skipSpace_append {admits : Admission} {d : Doc} {t : Text}
    (h : WrittenSpaced admits d t) (rest : Text) :
    ∃ u r, skipSpace (t ++ rest) = u :: r ∧ Doc.Shape.ofUnit? u = some d.shape := by
  obtain @⟨_, w, after, _, hbefore, hw, -⟩ := h
  obtain ⟨u, r, rfl, hu⟩ := hw.exists_head
  refine ⟨u, r ++ (after ++ rest), ?_, hu⟩
  rw [List.append_assoc, Json.skipSpace_append hbefore, List.append_assoc]
  exact skipSpace_cons (isSpace_of_ofUnit? hu) _

/-- The first item does not close the array. -/
theorem WrittenItems.skipSpace_append {admits : Admission} {items : List Doc} {t : Text}
    (h : WrittenItems admits items t) (rest : Text) :
    ∃ u r, skipSpace (t ++ rest) = u :: r ∧ u ≠ closeArray := by
  have hclose : ∀ {s}, Doc.Shape.ofUnit? closeArray ≠ some s := by
    intro s hs
    rw [show Doc.Shape.ofUnit? closeArray = none by decide] at hs
    cases hs
  cases h with
  | last h =>
      obtain ⟨u, r, hskip, hu⟩ := h.skipSpace_append rest
      exact ⟨u, r, hskip, fun heq => hclose (heq ▸ hu)⟩
  | @cons _ _ _ more h _ =>
      obtain ⟨u, r, hskip, hu⟩ := h.skipSpace_append (comma :: more ++ rest)
      exact ⟨u, r, by rw [List.append_assoc]; exact hskip, fun heq => hclose (heq ▸ hu)⟩

theorem KeyForm.skipSpace_append {key k : Text} (h : KeyForm key k) (rest : Text) :
    ∃ r, skipSpace (k ++ rest) = quote :: r := by
  obtain ⟨hbefore, -, -⟩ := h
  rw [List.append_assoc, Json.skipSpace_append hbefore, List.cons_append]
  exact ⟨_, skipSpace_cons (by decide) _⟩

/-- The first key does not close the object. -/
theorem WrittenMembers.skipSpace_append {admits : Admission} {seen members : List (Text × Doc)}
    {t : Text} (h : WrittenMembers admits seen members t) (rest : Text) :
    ∃ r, skipSpace (t ++ rest) = quote :: r := by
  cases h with
  | last h _ _ | cons h _ _ _ =>
      rw [List.append_assoc]
      exact h.skipSpace_append _

/-! ### What is written is read -/

section

variable (admits : Admission) (fuel : Nat)

/-- With the fuel, documents in texts up to half as long are read. -/
def ReadsDocs : Prop :=
  ∀ {d : Doc} {w rest : Text}, Written admits d w → 2 * w.length ≤ fuel → Stops rest →
    scanDoc admits fuel (w ++ rest) = .ok (d, skipSpace rest)

/-- With the fuel, items in texts less than half as long are read. -/
def ReadsItems : Prop :=
  ∀ {items : List Doc} {w rest : Text}, WrittenItems admits items w → 2 * w.length < fuel →
    scanItems admits fuel (w ++ closeArray :: rest) = .ok (items, rest)

/-- With the fuel, members in texts less than half as long are read. -/
def ReadsMembers : Prop :=
  ∀ {seen members : List (Text × Doc)} {w rest : Text}, WrittenMembers admits seen members w →
    2 * w.length < fuel →
    scanMembers admits fuel seen (w ++ closeObject :: rest) = .ok (seen ++ members, rest)

end

section

variable {admits : Admission} {fuel : Nat}

theorem ReadsDocs.spaced (hdocs : ReadsDocs admits fuel) {d : Doc} {w rest : Text}
    (h : WrittenSpaced admits d w) (hfuel : 2 * w.length ≤ fuel) (hrest : Stops rest) :
    scanDoc admits fuel (w ++ rest) = .ok (d, skipSpace rest) := by
  obtain ⟨hbefore, hw, hafter⟩ := h
  simp only [List.length_append] at hfuel
  rw [← scanDoc_skipSpace, List.append_assoc, skipSpace_append hbefore, scanDoc_skipSpace,
    List.append_assoc, hdocs hw (by omega) (Stops.blank_append hafter hrest),
    skipSpace_append hafter]

theorem readsDocs_succ (hitems : ReadsItems admits fuel) (hmembers : ReadsMembers admits fuel) :
    ReadsDocs admits (fuel + 1) := by
  intro d w rest h hfuel hrest
  cases h with
  | null => rfl
  | bool b => cases b <;> rfl
  | number hn =>
      -- the first unit of a token leads to this branch
      obtain ⟨u, r, htext, hu⟩ := hn.exists_head
      obtain ⟨hquote, harray, hobject, hbegins⟩ := beginsNumeral_of_ofUnit? hu
      have hscan := scanNumeral_append hn hrest
      rw [htext, List.cons_append] at hscan ⊢
      rw [scanDoc, skipSpace_cons (isSpace_of_ofUnit? hu)]
      simp only
      rw [if_neg hquote, if_neg harray, if_neg hobject, if_pos hbegins, hscan]
      rfl
  | text hcontent =>
      have hscan := scanText_append hcontent rest
      rw [List.cons_append, List.append_assoc, scanDoc, skipSpace_cons (by decide)]
      simp only [List.singleton_append]
      rw [if_pos trivial, hscan]
  | @emptyArray t hblank =>
      rw [List.cons_append, List.append_assoc, scanDoc, skipSpace_cons (by decide)]
      simp only [List.singleton_append]
      rw [if_neg (by decide), if_pos trivial, skipSpace_append hblank, skipSpace_cons (by decide)]
      exact if_pos rfl
  | @array items t hwritten =>
      simp only [List.length_cons, List.length_append, List.length_nil] at hfuel
      -- the white space before the first item is skipped twice
      obtain ⟨u, r, hskip, hu⟩ := hwritten.skipSpace_append (closeArray :: rest)
      have hscan : scanItems admits fuel (t ++ closeArray :: rest) = .ok (items, rest) :=
        hitems hwritten (by omega)
      rw [← scanItems_skipSpace, hskip] at hscan
      rw [List.cons_append, List.append_assoc, scanDoc, skipSpace_cons (by decide)]
      simp only [List.singleton_append]
      rw [if_neg (by decide), if_pos trivial, hskip]
      simp only
      rw [if_neg hu, hscan]
      rfl
  | @emptyObject t hblank =>
      rw [List.cons_append, List.append_assoc, scanDoc, skipSpace_cons (by decide)]
      simp only [List.singleton_append]
      rw [if_neg (by decide), if_neg (by decide), if_pos trivial, skipSpace_append hblank,
        skipSpace_cons (by decide)]
      exact if_pos rfl
  | @object members t hwritten =>
      simp only [List.length_cons, List.length_append, List.length_nil] at hfuel
      obtain ⟨r, hskip⟩ := hwritten.skipSpace_append (closeObject :: rest)
      have hscan : scanMembers admits fuel [] (t ++ closeObject :: rest) = .ok (members, rest) :=
        hmembers hwritten (by omega)
      rw [← scanMembers_skipSpace, hskip] at hscan
      rw [List.cons_append, List.append_assoc, scanDoc, skipSpace_cons (by decide)]
      simp only [List.singleton_append]
      rw [if_neg (by decide), if_neg (by decide), if_pos trivial, hskip]
      simp only
      rw [if_neg (by decide), hscan]
      rfl

theorem readsItems_succ (hdocs : ReadsDocs admits fuel) (hitems : ReadsItems admits fuel) :
    ReadsItems admits (fuel + 1) := by
  intro items w rest h hfuel
  cases h with
  | last hd =>
      have hscan := hdocs.spaced hd (by omega) (Stops.cons (u := closeArray) (by decide) rest)
      rw [scanItems, hscan, skipSpace_cons (by decide)]
      exact if_pos rfl
  | @cons d items t r hd hr =>
      simp only [List.length_append, List.length_cons] at hfuel
      have hscan := hdocs.spaced hd (by omega)
        (Stops.cons (u := comma) (by decide) (r ++ closeArray :: rest))
      have hmore : scanItems admits fuel (r ++ closeArray :: rest) = .ok (items, rest) :=
        hitems hr (by omega)
      rw [List.append_assoc, List.cons_append, scanItems, hscan, skipSpace_cons (by decide)]
      simp only
      rw [if_neg (by decide), if_pos trivial, hmore]
      rfl

theorem readsMembers_succ (hdocs : ReadsDocs admits fuel) (hmembers : ReadsMembers admits fuel) :
    ReadsMembers admits (fuel + 1) := by
  intro seen members w rest h hfuel
  cases h with
  | last hkey hd hallowed =>
      simp only [List.length_append] at hfuel
      have hscan := hdocs.spaced hd (by omega) (Stops.cons (u := closeObject) (by decide) rest)
      rw [List.append_assoc, scanMembers, scanKey_append hkey]
      simp only
      rw [hscan]
      simp only
      rw [if_pos hallowed, skipSpace_cons (by decide)]
      exact if_pos rfl
  | @cons _ members key k d t r hkey hd hallowed hr =>
      simp only [List.length_append, List.length_cons] at hfuel
      have hscan := hdocs.spaced hd (by omega)
        (Stops.cons (u := comma) (by decide) (r ++ closeObject :: rest))
      have hmore : scanMembers admits fuel (seen ++ [(key, d)]) (r ++ closeObject :: rest) =
          .ok (seen ++ [(key, d)] ++ members, rest) := hmembers hr (by omega)
      rw [List.append_assoc, List.append_assoc, List.cons_append, scanMembers, scanKey_append hkey]
      simp only
      rw [hscan]
      simp only
      rw [if_pos hallowed, skipSpace_cons (by decide)]
      simp only
      rw [if_neg (by decide), if_pos trivial, hmore, List.append_assoc, List.singleton_append]

variable (admits fuel)

theorem reads_all : ReadsDocs admits fuel ∧ ReadsItems admits fuel ∧ ReadsMembers admits fuel := by
  -- each nested call has one unit of fuel less and at least one unit of text less to read
  induction fuel with
  | zero =>
      refine ⟨fun {d w rest} h hfuel _ => ?_, fun _ hfuel => ?_, fun _ hfuel => ?_⟩
      · obtain ⟨u, r, rfl, -⟩ := h.exists_head
        simp at hfuel
      · omega
      · omega
  | succ fuel ih =>
      obtain ⟨hdocs, hitems, hmembers⟩ := ih
      exact ⟨readsDocs_succ hitems hmembers, readsItems_succ hdocs hitems,
        readsMembers_succ hdocs hmembers⟩

/-! ### What is read is written -/

/-- What is read with the fuel as a document is written. -/
def WritesDocs : Prop :=
  ∀ {t rest : Text} {d : Doc}, scanDoc admits fuel t = .ok (d, rest) →
    ∃ w, WrittenSpaced admits d w ∧ t = w ++ rest

/-- What is read with the fuel as items is written. -/
def WritesItems : Prop :=
  ∀ {t rest : Text} {items : List Doc}, scanItems admits fuel t = .ok (items, rest) →
    ∃ w, WrittenItems admits items w ∧ t = w ++ closeArray :: rest

/-- What is read with the fuel as members is written. -/
def WritesMembers : Prop :=
  ∀ {t rest : Text} {seen all : List (Text × Doc)},
    scanMembers admits fuel seen t = .ok (all, rest) →
    ∃ members w, all = seen ++ members ∧ WrittenMembers admits seen members w ∧
      t = w ++ closeObject :: rest

variable {admits fuel}

/-- What the reader of documents can do at a unit and the text after it, and what it leaves. -/
inductive DocStep (admits : Admission) (fuel : Nat) : CodeUnit → Text → Doc → Text → Prop where
  | text {t r s : Text} (h : scanText t = some (s, r)) : DocStep admits fuel quote t (.text s) r
  | emptyArray {t r : Text} (h : skipSpace t = closeArray :: r) :
      DocStep admits fuel openArray t (.array []) r
  | array {t r : Text} {items : List Doc} (h : scanItems admits fuel t = .ok (items, r)) :
      DocStep admits fuel openArray t (.array items) r
  | emptyObject {t r : Text} (h : skipSpace t = closeObject :: r) :
      DocStep admits fuel openObject t (.object []) r
  | object {t r : Text} {members : List (Text × Doc)}
      (h : scanMembers admits fuel [] t = .ok (members, r)) :
      DocStep admits fuel openObject t (.object members) r
  | number {u : CodeUnit} {t r : Text} {n : Numeral} (h : scanNumeral (u :: t) = .ok (n, r)) :
      DocStep admits fuel u t (.number n) r
  | word {u : CodeUnit} {t r : Text} {d : Doc} (h : scanWord (u :: t) = .ok (d, r)) :
      DocStep admits fuel u t d r

/-- The reader of documents does one of these things after the white space. -/
theorem exists_docStep {t rest : Text} {d : Doc}
    (h : scanDoc admits (fuel + 1) t = .ok (d, rest)) :
    ∃ u t₁ r, skipSpace t = u :: t₁ ∧ DocStep admits fuel u t₁ d r ∧ rest = skipSpace r := by
  rw [scanDoc] at h
  cases hskip : skipSpace t with
  | nil => simp [hskip] at h
  | cons u t₁ =>
      simp only [hskip] at h
      refine ⟨u, t₁, ?_⟩
      by_cases hquote : u = quote
      · rw [if_pos hquote] at h
        cases hscan : scanText t₁ with
        | none => simp [hscan] at h
        | some pair =>
            simp only [hscan] at h
            obtain ⟨rfl, rfl⟩ := Prod.mk.inj (Except.ok.inj h)
            exact ⟨_, rfl, hquote ▸ .text hscan, rfl⟩
      rw [if_neg hquote] at h
      by_cases harray : u = openArray
      · rw [if_pos harray] at h
        cases hskip₁ : skipSpace t₁ with
        | nil => simp [hskip₁] at h
        | cons v t₂ =>
            simp only [hskip₁] at h
            by_cases hclose : v = closeArray
            · rw [if_pos hclose] at h
              obtain ⟨rfl, rfl⟩ := Prod.mk.inj (Except.ok.inj h)
              exact ⟨_, rfl, harray ▸ .emptyArray (hclose ▸ hskip₁), rfl⟩
            · rw [if_neg hclose] at h
              obtain ⟨⟨items, r⟩, hscan, hpair⟩ := exists_of_map_eq_ok h
              obtain ⟨rfl, rfl⟩ := Prod.mk.inj hpair
              rw [← hskip₁, scanItems_skipSpace] at hscan
              exact ⟨_, rfl, harray ▸ .array hscan, rfl⟩
      rw [if_neg harray] at h
      by_cases hobject : u = openObject
      · rw [if_pos hobject] at h
        cases hskip₁ : skipSpace t₁ with
        | nil => simp [hskip₁] at h
        | cons v t₂ =>
            simp only [hskip₁] at h
            by_cases hclose : v = closeObject
            · rw [if_pos hclose] at h
              obtain ⟨rfl, rfl⟩ := Prod.mk.inj (Except.ok.inj h)
              exact ⟨_, rfl, hobject ▸ .emptyObject (hclose ▸ hskip₁), rfl⟩
            · rw [if_neg hclose] at h
              obtain ⟨⟨members, r⟩, hscan, hpair⟩ := exists_of_map_eq_ok h
              obtain ⟨rfl, rfl⟩ := Prod.mk.inj hpair
              rw [← hskip₁, scanMembers_skipSpace] at hscan
              exact ⟨_, rfl, hobject ▸ .object hscan, rfl⟩
      rw [if_neg hobject] at h
      by_cases hbegins : beginsNumeral u = true
      · rw [if_pos hbegins] at h
        obtain ⟨⟨n, r⟩, hscan, hpair⟩ := exists_of_map_eq_ok h
        obtain ⟨rfl, rfl⟩ := Prod.mk.inj hpair
        exact ⟨_, rfl, .number hscan, rfl⟩
      · rw [if_neg hbegins] at h
        obtain ⟨⟨d', r⟩, hscan, hpair⟩ := exists_of_map_eq_ok h
        obtain ⟨rfl, rfl⟩ := Prod.mk.inj hpair
        exact ⟨_, rfl, .word hscan, rfl⟩

theorem DocStep.exists_written (hitems : WritesItems admits fuel)
    (hmembers : WritesMembers admits fuel) {u : CodeUnit} {t r : Text} {d : Doc}
    (h : DocStep admits fuel u t d r) : ∃ w, Written admits d w ∧ u :: t = w ++ r := by
  cases h with
  | text h =>
      obtain ⟨content, hcontent, rfl⟩ := exists_contentForm_of_scanText h
      exact ⟨_, .text hcontent, by simp⟩
  | emptyArray h =>
      obtain ⟨b, hb, ht⟩ := exists_blank t
      exact ⟨_, .emptyArray hb, by rw [ht, h]; simp⟩
  | array h =>
      obtain ⟨w, hw, rfl⟩ := hitems h
      exact ⟨_, .array hw, by simp⟩
  | emptyObject h =>
      obtain ⟨b, hb, ht⟩ := exists_blank t
      exact ⟨_, .emptyObject hb, by rw [ht, h]; simp⟩
  | object h =>
      obtain ⟨members', w, rfl, hw, rfl⟩ := hmembers h
      exact ⟨_, .object hw, by simp⟩
  | number h =>
      obtain ⟨hn, htext⟩ := isToken_of_scanNumeral h
      exact ⟨_, .number hn, htext⟩
  | word h => exact written_of_scanWord h

theorem writesDocs_succ (hitems : WritesItems admits fuel) (hmembers : WritesMembers admits fuel) :
    WritesDocs admits (fuel + 1) := by
  intro t rest d h
  obtain ⟨before, hbefore, ht⟩ := exists_blank t
  obtain ⟨u, t₁, r, hskip, hstep, rfl⟩ := exists_docStep h
  obtain ⟨w, hw, hr⟩ := hstep.exists_written hitems hmembers
  -- the white space after the document is skipped with it
  obtain ⟨after, hafter, hrest⟩ := exists_blank r
  refine ⟨_, .mk hbefore hw hafter, ?_⟩
  calc
    t = before ++ (w ++ r) := by rw [← hr, ← hskip, ← ht]
    _ = before ++ (w ++ after) ++ skipSpace r := by
      rw [List.append_assoc, List.append_assoc, ← hrest]

theorem writesItems_succ (hdocs : WritesDocs admits fuel) (hitems : WritesItems admits fuel) :
    WritesItems admits (fuel + 1) := by
  intro t rest items h
  rw [scanItems] at h
  split at h
  · simp at h
  · simp at h
  next d u t₁ hscan =>
  obtain ⟨w, hw, rfl⟩ := hdocs hscan
  split at h
  · next hu =>
      subst hu
      obtain ⟨rfl, rfl⟩ := Prod.mk.inj (Except.ok.inj h)
      exact ⟨w, .last hw, rfl⟩
  split at h
  · next hu =>
      subst hu
      obtain ⟨⟨items', r⟩, hmore, hpair⟩ := exists_of_map_eq_ok h
      obtain ⟨rfl, rfl⟩ := Prod.mk.inj hpair
      obtain ⟨w', hw', rfl⟩ := hitems hmore
      exact ⟨_, .cons hw hw', by simp⟩
  · simp at h

theorem writesMembers_succ (hdocs : WritesDocs admits fuel) (hmembers : WritesMembers admits fuel) :
    WritesMembers admits (fuel + 1) := by
  intro t rest seen all h
  rw [scanMembers] at h
  split at h
  · simp at h
  next key t₁ hkeyscan =>
  obtain ⟨k, hkey, rfl⟩ := exists_keyForm_of_scanKey hkeyscan
  split at h
  · simp at h
  next d t₂ hscan =>
  obtain ⟨w, hw, rfl⟩ := hdocs hscan
  split at h
  next hallowed =>
    split at h
    · simp at h
    next u t₃ =>
    split at h
    · next hu =>
        subst hu
        obtain ⟨rfl, rfl⟩ := Prod.mk.inj (Except.ok.inj h)
        exact ⟨_, _, rfl, .last hkey hw hallowed, by simp⟩
    split at h
    · next hu =>
        subst hu
        obtain ⟨members, w', rfl, hw', rfl⟩ := hmembers h
        exact ⟨_, _, by rw [List.append_assoc]; rfl, .cons hkey hw hallowed hw', by simp⟩
    · simp at h
  next => simp at h

variable (admits fuel)

theorem writes_all :
    WritesDocs admits fuel ∧ WritesItems admits fuel ∧ WritesMembers admits fuel := by
  induction fuel with
  | zero =>
      refine ⟨fun h => ?_, fun h => ?_, fun h => ?_⟩
      · simp [scanDoc] at h
      · simp [scanItems] at h
      · simp [scanMembers] at h
  | succ fuel ih =>
      obtain ⟨hdocs, hitems, hmembers⟩ := ih
      exact ⟨writesDocs_succ hitems hmembers, writesItems_succ hdocs hitems,
        writesMembers_succ hdocs hmembers⟩

end

/-! ### Whole texts -/

/-- **The reader gives the documents that are written, and no others.** -/
theorem Doc.parse_eq_ok_iff {admits : Admission} {t : Text} {d : Doc} :
    Doc.parse admits t = .ok d ↔ WrittenSpaced admits d t := by
  rw [Doc.parse]
  constructor
  · intro h
    split at h
    · simp at h
    · next d' hscan =>
        obtain rfl := Except.ok.inj h
        obtain ⟨hdocs, -, -⟩ := writes_all admits (2 * t.length + 2)
        obtain ⟨w, hw, rfl⟩ := hdocs hscan
        rwa [List.append_nil]
    · simp at h
  · intro h
    obtain ⟨hdocs, -, -⟩ := reads_all admits (2 * t.length + 2)
    have hscan : scanDoc admits (2 * t.length + 2) (t ++ []) = .ok (d, skipSpace []) :=
      hdocs.spaced h (by omega) nofun
    rw [List.append_nil] at hscan
    rw [hscan]
    rfl

/-- A text writes one document at most. -/
theorem WrittenSpaced.unique {admits : Admission} {t : Text} {d d' : Doc}
    (h : WrittenSpaced admits d t) (h' : WrittenSpaced admits d' t) : d = d' :=
  Except.ok.inj ((Doc.parse_eq_ok_iff.2 h).symm.trans (Doc.parse_eq_ok_iff.2 h'))

theorem WrittenSpaced.exists_head {admits : Admission} {d : Doc} {t : Text}
    (h : WrittenSpaced admits d t) :
    ∃ u, (skipSpace t).head? = some u ∧ Doc.Shape.ofUnit? u = some d.shape := by
  obtain ⟨u, r, hskip, hu⟩ := h.skipSpace_append []
  rw [List.append_nil] at hskip
  exact ⟨u, by rw [hskip]; rfl, hu⟩

end Json

end WireCodec
