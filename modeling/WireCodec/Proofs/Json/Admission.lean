import Mathlib.Data.List.Basic
import WireCodec.Json.Reading
import WireCodec.Proofs.Json.Printer

/-
**What the admission of members adds to the grammar.**

The grammar of `WireCodec.Proofs.Json.Grammar` has one rule that is not about units: whether an
object may take a further member.  Here this rule is taken apart from the others.  In the plain
reading it never refuses, so the texts of the plain reading are those of the grammar alone, and in
the lossless reading it only matters where keys repeat.

Main results:

* `Json.writtenSpaced_iff`: a text writes a document if the grammar says so and all objects of the
  document take their members;
* `Json.Doc.isWritable_object_iff`: an object whose keys are all different takes all members.
-/

set_option relaxedAutoImplicit false
set_option autoImplicit false

namespace WireCodec

namespace Json

/-! ### Grammar and admission -/

section

variable {admits : Admission}

theorem writtenSpaced_iff_of_written {other : Admission} {d : Doc} {p : Prop}
    (h : ∀ {t : Text}, Written admits d t ↔ Written other d t ∧ p) {t : Text} :
    WrittenSpaced admits d t ↔ WrittenSpaced other d t ∧ p := by
  constructor
  · rintro ⟨hbefore, hw, hafter⟩
    exact ⟨⟨hbefore, (h.1 hw).1, hafter⟩, (h.1 hw).2⟩
  · rintro ⟨⟨hbefore, hw, hafter⟩, hp⟩
    exact ⟨hbefore, h.2 ⟨hw, hp⟩, hafter⟩

mutual

theorem written_iff {d : Doc} {t : Text} :
    Written admits d t ↔ Written Reading.plain.admits d t ∧ d.IsWritable admits := by
  cases d with
  | null =>
      constructor
      · rintro ⟨⟩
        exact ⟨.null, trivial⟩
      · rintro ⟨⟨⟩, -⟩
        exact .null
  | bool b =>
      constructor
      · rintro ⟨⟩
        exact ⟨.bool b, trivial⟩
      · rintro ⟨⟨⟩, -⟩
        exact .bool b
  | number n =>
      constructor
      · rintro ⟨⟩
        next h => exact ⟨.number h, h⟩
      · rintro ⟨⟨⟩, h⟩
        exact .number h
  | text s =>
      constructor
      · rintro ⟨⟩
        next h => exact ⟨.text h, trivial⟩
      · rintro ⟨⟨⟩, -⟩
        next h => exact .text h
  | array items =>
      constructor
      · intro h
        cases h with
        | emptyArray h => exact ⟨.emptyArray h, trivial⟩
        | array h => exact ⟨.array (writtenItems_iff.1 h).1, (writtenItems_iff.1 h).2⟩
      · rintro ⟨h, hitems⟩
        cases h with
        | emptyArray h => exact .emptyArray h
        | array h => exact .array (writtenItems_iff.2 ⟨h, hitems⟩)
  | object members =>
      constructor
      · intro h
        cases h with
        | emptyObject h => exact ⟨.emptyObject h, trivial⟩
        | object h => exact ⟨.object (writtenMembers_iff.1 h).1, (writtenMembers_iff.1 h).2⟩
      · rintro ⟨h, hmembers⟩
        cases h with
        | emptyObject h => exact .emptyObject h
        | object h => exact .object (writtenMembers_iff.2 ⟨h, hmembers⟩)

theorem writtenItems_iff {items : List Doc} {t : Text} :
    WrittenItems admits items t ↔
      WrittenItems Reading.plain.admits items t ∧ Doc.AreWritable admits items := by
  cases items with
  | nil => exact iff_of_false nofun nofun
  | cons d rest =>
      have hspaced := @writtenSpaced_iff_of_written admits _ d _ written_iff
      constructor
      · intro h
        cases h with
        | last hd => exact ⟨.last (hspaced.1 hd).1, (hspaced.1 hd).2, trivial⟩
        | cons hd hrest =>
            obtain ⟨hrest, hwritable⟩ := writtenItems_iff.1 hrest
            exact ⟨.cons (hspaced.1 hd).1 hrest, (hspaced.1 hd).2, hwritable⟩
      · rintro ⟨h, hd', hwritable⟩
        cases h with
        | last hd => exact .last (hspaced.2 ⟨hd, hd'⟩)
        | cons hd hrest =>
            exact .cons (hspaced.2 ⟨hd, hd'⟩) (writtenItems_iff.2 ⟨hrest, hwritable⟩)

theorem writtenMembers_iff {seen members : List (Text × Doc)} {t : Text} :
    WrittenMembers admits seen members t ↔
      WrittenMembers Reading.plain.admits seen members t ∧
        Doc.AreWritableAfter admits seen members := by
  cases members with
  | nil => exact iff_of_false nofun nofun
  | cons m rest =>
      have hspaced := @writtenSpaced_iff_of_written admits _ m.2 _ written_iff
      constructor
      · intro h
        cases h with
        | last hkey hd hallowed =>
            exact ⟨.last hkey (hspaced.1 hd).1 rfl, (hspaced.1 hd).2, hallowed, trivial⟩
        | cons hkey hd hallowed hrest =>
            obtain ⟨hrest, hwritable⟩ := writtenMembers_iff.1 hrest
            exact ⟨.cons hkey (hspaced.1 hd).1 rfl hrest, (hspaced.1 hd).2, hallowed, hwritable⟩
      · rintro ⟨h, hd', hallowed, hwritable⟩
        cases h with
        | last hkey hd => exact .last hkey (hspaced.2 ⟨hd, hd'⟩) hallowed
        | cons hkey hd _ hrest =>
            exact .cons hkey (hspaced.2 ⟨hd, hd'⟩) hallowed
              (writtenMembers_iff.2 ⟨hrest, hwritable⟩)

end

/-- **A text writes a document if the grammar says so and all objects take their members.** -/
theorem writtenSpaced_iff {d : Doc} {t : Text} :
    WrittenSpaced admits d t ↔
      WrittenSpaced Reading.plain.admits d t ∧ d.IsWritable admits :=
  writtenSpaced_iff_of_written written_iff

end

/-! ### Different keys -/

/-- A new key is always taken. -/
theorem admits_of_new {seen : List (Text × Doc)} {key : Text} (h : ∀ m ∈ seen, m.1 ≠ key)
    (d : Doc) : Reading.lossless.admits seen key d = true := by
  have hany : ¬ (seen.any fun m => m.1 == key) = true := by
    intro hany
    obtain ⟨m, hm, hkey⟩ := List.any_eq_true.1 hany
    exact h m hm (eq_of_beq hkey)
  rw [Reading.admits, if_neg hany]

theorem areWritableAfter_iff_of_nodup {seen members : List (Text × Doc)}
    (h : ((seen ++ members).map Prod.fst).Nodup) :
    Doc.AreWritableAfter Reading.lossless.admits seen members ↔
      ∀ m ∈ members, m.2.IsWritable Reading.lossless.admits := by
  induction members generalizing seen with
  | nil => exact iff_of_true trivial nofun
  | cons m rest ih =>
      obtain ⟨key, d⟩ := m
      have hnew : ∀ m ∈ seen, m.1 ≠ key := by
        intro m hm
        rw [List.map_append, List.nodup_append] at h
        exact h.2.2 _ (List.mem_map_of_mem hm) _ List.mem_cons_self
      have hrest : ((seen ++ [(key, d)] ++ rest).map Prod.fst).Nodup := by
        rw [List.append_assoc]
        exact h
      rw [Doc.AreWritableAfter, ih hrest, List.forall_mem_cons]
      constructor
      · rintro ⟨hd, -, hrest⟩
        exact ⟨hd, hrest⟩
      · rintro ⟨hd, hrest⟩
        exact ⟨hd, admits_of_new hnew d, hrest⟩

/-- **An object whose keys are all different takes all members.** -/
theorem Doc.isWritable_object_iff {members : List (Text × Doc)}
    (h : (members.map Prod.fst).Nodup) :
    (Doc.object members).IsWritable Reading.lossless.admits ↔
      ∀ m ∈ members, m.2.IsWritable Reading.lossless.admits :=
  areWritableAfter_iff_of_nodup h

end Json

end WireCodec
