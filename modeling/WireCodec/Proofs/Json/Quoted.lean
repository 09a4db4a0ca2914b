import WireCodec.Proofs.Decoding

/-
**Texts between quotes.**

A raw text that begins with a quote is a text between quotes, or it is no document.  If it ends
with a quote as well, nothing but that text can stand in it, for no white space is a quote.

Main definitions:

* `Json.Quotes`, `Json.QuotesSpaced`: a raw text is a text between quotes, without and with white
  space around it.

Main results:

* `Json.QuotesSpaced.quotes`: between a quote at both ends there is no room for white space around
  the text;
* `readJson_eq_text_iff`: what is read as a text is a text between quotes;
* `readJson_of_head_quote`: after a quote there is a text or no document;
* `readJson_cases`: what a reader of texts is given.
-/

set_option relaxedAutoImplicit false
set_option autoImplicit false

namespace WireCodec

open Json (Value Doc Reading)

namespace Json

/-! ### The grammar of quoted texts -/

/-- The raw text is a text between quotes. -/
def Quotes (raw t : Text) : Prop :=
  ∃ content, ContentForm t content ∧ raw = quote :: (content ++ [quote])

/-- The raw text is a text between quotes with white space around it. -/
def QuotesSpaced (raw t : Text) : Prop :=
  ∃ before token after, Blank before ∧ Quotes token t ∧ Blank after ∧
    raw = before ++ (token ++ after)

/-- What is printed for a text is the text between quotes. -/
theorem quotes_quoted (t : Text) : Quotes (quoted t) t :=
  ⟨escape t, contentForm_escape t, rfl⟩

theorem Quotes.spaced {raw t : Text} (h : Quotes raw t) : QuotesSpaced raw t :=
  ⟨[], raw, [], nofun, h, nofun, (List.append_nil raw).symm⟩

theorem writtenSpaced_text_iff {admits : Admission} {raw t : Text} :
    WrittenSpaced admits (.text t) raw ↔ QuotesSpaced raw t := by
  constructor
  · rintro ⟨hbefore, hw, hafter⟩
    cases hw with
    | text h => exact ⟨_, _, _, hbefore, ⟨_, h, rfl⟩, hafter, rfl⟩
  · rintro ⟨before, token, after, hbefore, ⟨content, h, rfl⟩, hafter, rfl⟩
    exact .mk hbefore (.text h) hafter

/-! ### Quotes at the ends -/

theorem quote_not_mem_of_blank {l : Text} (h : Blank l) : quote ∉ l := by
  intro hmem
  have hspace := h quote hmem
  revert hspace
  decide

/-- Between a quote at both ends there is no room for white space around the text. -/
theorem QuotesSpaced.quotes {raw t : Text} (h : QuotesSpaced raw t)
    (hhead : raw.head? = some quote) (hlast : raw.getLast? = some quote) : Quotes raw t := by
  obtain ⟨before, token, after, hbefore, htoken, hafter, rfl⟩ := h
  have hnil : before = [] := by
    cases before with
    | nil => rfl
    | cons u before =>
        obtain rfl := Option.some_inj.1 hhead
        exact absurd List.mem_cons_self (quote_not_mem_of_blank hbefore)
  have hnil' : after = [] := by
    cases hend : after.getLast? with
    | none => exact List.getLast?_eq_none_iff.1 hend
    | some u =>
        rw [List.getLast?_append, List.getLast?_append, hend] at hlast
        obtain rfl := Option.some_inj.1 hlast
        exact absurd (List.mem_of_getLast? hend) (quote_not_mem_of_blank hafter)
  rwa [hnil, hnil', List.append_nil]

/-- After a quote there is a text. -/
theorem WrittenSpaced.eq_text_of_head_quote {admits : Admission} {d : Doc} {raw : Text}
    (h : WrittenSpaced admits d raw) (hhead : raw.head? = some quote) : ∃ t, d = .text t := by
  obtain ⟨u, hu, hshape⟩ := h.exists_head
  obtain ⟨rest, rfl⟩ := List.head?_eq_some_iff.1 hhead
  rw [skipSpace_cons (by decide)] at hu
  obtain rfl := Option.some_inj.1 hu
  have htext : Doc.Shape.ofUnit? quote = some .text := by decide
  rw [htext] at hshape
  cases d with
  | text t => exact ⟨t, rfl⟩
  | null | bool | number | array | object => cases hshape

end Json

/-! ### Reading -/

section

variable {raw : Text} {reason : DecodeReason} {typeName : Text}

/-- What is read as a text is a text between quotes. -/
theorem readJson_eq_text_iff {t : Text} :
    readJson raw reason typeName = .ok (.text t) ↔ Json.QuotesSpaced raw t := by
  rw [readJson_eq_ok_iff, ← Json.writtenSpaced_text_iff]
  constructor
  · rintro ⟨d, hd, hv⟩
    rwa [Value.ofDoc_eq_text hv.symm] at hd
  · intro h
    exact ⟨.text t, h, by rw [Value.ofDoc]⟩

/-- What is no document is refused for the fault that the parser finds. -/
theorem exists_fault_of_readJson {e : DecodeError} (h : readJson raw reason typeName = .error e) :
    ∃ fault, e = .invalidJson reason typeName raw fault := by
  rw [readJson] at h
  obtain ⟨fault, -, rfl⟩ := exists_of_mapError_eq_error h
  exact ⟨fault, rfl⟩

variable (raw reason typeName)

/-- What a reader of texts is given: a text between quotes, another value, or no document. -/
theorem readJson_cases :
    (∃ t, Json.QuotesSpaced raw t ∧ readJson raw reason typeName = .ok (.text t)) ∨
      (∀ t, ¬ Json.QuotesSpaced raw t) ∧
        ((∃ fault, readJson raw reason typeName = .error (.invalidJson reason typeName raw fault)) ∨
          ∃ v, (∀ t, v ≠ .text t) ∧ readJson raw reason typeName = .ok v) := by
  by_cases hquotes : ∃ t, Json.QuotesSpaced raw t
  · obtain ⟨t, ht⟩ := hquotes
    exact .inl ⟨t, ht, readJson_eq_text_iff.2 ht⟩
  · have hnone := not_exists.1 hquotes
    refine .inr ⟨hnone, ?_⟩
    cases hread : readJson raw reason typeName with
    | error e =>
        obtain ⟨fault, rfl⟩ := exists_fault_of_readJson hread
        exact .inl ⟨fault, rfl⟩
    | ok v =>
        refine .inr ⟨v, ?_, rfl⟩
        rintro t rfl
        exact hnone t (readJson_eq_text_iff.1 hread)

variable {raw}

/-- After a quote there is a text or no document. -/
theorem readJson_of_head_quote (hhead : raw.head? = some Json.quote) :
    (∃ fault, readJson raw reason typeName = .error (.invalidJson reason typeName raw fault)) ∨
      ∃ t, readJson raw reason typeName = .ok (.text t) := by
  rcases readJson_cases raw reason typeName with ⟨t, -, hread⟩ | ⟨hnone, hfault | ⟨v, hv, hread⟩⟩
  · exact .inr ⟨t, hread⟩
  · exact .inl hfault
  · -- any other value would be written with another first unit
    obtain ⟨d, hd, rfl⟩ := readJson_eq_ok_iff.1 hread
    obtain ⟨t, rfl⟩ := hd.eq_text_of_head_quote hhead
    exact absurd (Json.writtenSpaced_text_iff.1 hd) (hnone t)

end

end WireCodec
