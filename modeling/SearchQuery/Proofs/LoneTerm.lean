import SearchQuery.Proofs.Canonical

/-!
# A term alone

The text of a single term, read back as one fragment or as a whole query.  As a
fragment it is the term again for every value that is not empty, except that
behind a technical label a value may lend an at sign to the operator or to the
label.  A whole query is trimmed and cut besides.
-/

namespace SearchQuery

/-!
# As a fragment
-/

namespace Term

variable {settings : Settings} {t : Term} {negated : Bool}

theorem named_of_element_body (hs : settings.fulltextFallback = true)
    (h : Fragment.element settings t.body negated =
      .ok (.term { t with negated := negated })) : t.address.Named := by
  rcases Fragment.element_cases h with
    ⟨shape, s, address, htext, haddress, heq⟩ | ⟨_, heq⟩
  · injection heq with heq
    injection heq with heq
    rw [heq]
    exact Address.named_of_ofText? htext haddress
  · -- With the fallback free text is a group and no term.
    rw [Element.freeText, hs] at heq
    cases heq

theorem element_body_iff (hcatalog : settings.catalog = .standard)
    (hs : settings.fulltextFallback = true) :
    Fragment.element settings t.body negated =
        .ok (.term { t with negated := negated }) <->
      t.address.Named ∧ t.value.toList ≠ [] ∧
        forall label, t.address = .technical label ->
          KeepsApart t.operator t.value.toList := by
  constructor
  · intro h
    have hnamed := named_of_element_body hs h
    rcases eq_escape_of_element hs hnamed List.prefix_rfl h rfl with
      ⟨_, hne, htechnical⟩
    exact ⟨hnamed, hne, htechnical⟩
  · intro hparts
    rcases hparts with ⟨hnamed, hne, htechnical⟩
    exact element_body hcatalog hnamed hne htechnical

end Term

namespace Element

theorem ofFragment_eq_ok_iff {settings : Settings} {text : String}
    {negated : Bool} {e : Element} :
    ofFragment settings text negated = .ok e <->
      Fragment.element settings text.toList negated = .ok e :=
  except_mapError_eq_ok_iff.trans Fragment.read_eq_ok_iff

theorem toList_text_term {t : Term} (h : t.negated = false) :
    (term t).text.toList = t.body := by
  rw [text, String.toList_ofList, chars_term, h]
  rfl

/-- The text of a term that is not technical is read as that term, negated as
asked for, exactly when its names are well formed and its value is not empty. -/
theorem ofFragment_text_iff {t : Term}
    (h : forall label, t.address ≠ .technical label) (negated : Bool) :
    ofFragment {} (term { t with negated := false }).text negated =
        .ok (term { t with negated := negated }) <->
      t.address.WellNamed ∧ t.value ≠ "" := by
  have hnamed : t.address.Named <-> t.address.WellNamed := by
    rw [← Address.legible_iff_wellNamed]
    exact ⟨fun hn => hn.legible h, Address.Legible.named⟩
  have htext : (term { t with negated := false }).text.toList = t.body :=
    toList_text_term rfl
  rw [ofFragment_eq_ok_iff, htext, Term.element_body_iff rfl rfl, hnamed, Ne,
    String.toList_eq_nil_iff]
  constructor
  · intro hparts
    exact ⟨hparts.1, hparts.2.1⟩
  · intro hparts
    exact ⟨hparts.1, hparts.2, fun label ha => absurd ha (h label)⟩

theorem ofFragment_text_iff_date :
    (forall label, Address.statement "dc:date" (some .date) ≠ .technical label) ∧
      ofFragment {}
          (term
            { address := .statement "dc:date" (some .date)
              operator := .greaterEquals
              value := " =(a OR \\) \n" }).text
          true =
        .ok (term
          { address := .statement "dc:date" (some .date)
            operator := .greaterEquals
            value := " =(a OR \\) \n"
            negated := true }) := by
  have h : forall label,
      Address.statement "dc:date" (some .date) ≠ .technical label := by
    intro label ha
    cases ha
  have hnamed : (Address.statement "dc:date" (some .date)).WellNamed := by
    refine ⟨by decide, ?_⟩
    intro c hc
    have hall : "dc:date".toList.all (fun c => c.isAlphanum || c == ':') =
        true := by
      decide
    have hc := List.all_eq_true.mp hall c hc
    rw [Bool.or_eq_true, beq_iff_eq] at hc
    exact hc.imp_right Or.inl
  refine ⟨h, ?_⟩
  exact (ofFragment_text_iff
    (t :=
      { address := .statement "dc:date" (some .date)
        operator := .greaterEquals
        value := " =(a OR \\) \n" })
    h true).mpr ⟨hnamed, by decide⟩

/-- The text of a technical term is read as that term, negated as asked for,
exactly when neither its label nor its value is empty and the value keeps apart
from what is in front of it. -/
theorem ofFragment_text_technical_iff (label value : String) (o : Operator)
    (negated : Bool) :
    ofFragment {}
        (term { address := .technical label, operator := o, value := value }).text
        negated =
        .ok (term
          { address := .technical label, operator := o, value := value,
            negated := negated }) <->
      label ≠ "" ∧ value ≠ "" ∧ Term.KeepsApart o value.toList := by
  have hnamed : (Address.technical label).Named <-> label ≠ "" :=
    not_congr String.toList_eq_nil_iff
  rw [ofFragment_eq_ok_iff, toList_text_term rfl]
  apply (Term.element_body_iff rfl rfl).trans
  rw [hnamed, Ne, Ne, String.toList_eq_nil_iff]
  constructor
  · intro hparts
    rcases hparts with ⟨hlabel, hvalue, htechnical⟩
    exact ⟨hlabel, hvalue, htechnical label rfl⟩
  · intro hparts
    rcases hparts with ⟨hlabel, hvalue, hapart⟩
    exact ⟨hlabel, hvalue, fun _ _ => hapart⟩

theorem ofFragment_text_technical_ne_of_at_sign :
    ofFragment {} (term { address := .technical "a", value := "@b" }).text false ≠
        .ok (term { address := .technical "a", value := "@b" }) ∧
      ofFragment {} (term { address := .technical "a", value := "]@b" }).text
          false ≠
        .ok (term { address := .technical "a", value := "]@b" }) := by
  constructor
  · intro h
    have hread :
        ofFragment {} (term { address := .technical "a", value := "@b" }).text
            false =
          .ok (term { address := .technical "a", value := "b" }) := rfl
    rw [hread] at h
    exact absurd (Except.ok.inj h) (by decide)
  · intro h
    have hread :
        ofFragment {} (term { address := .technical "a", value := "]@b" }).text
            false =
          .ok (term { address := .technical "a]=", value := "b" }) := rfl
    rw [hread] at h
    exact absurd (Except.ok.inj h) (by decide)

end Element

/-!
# As a query
-/

namespace Query

theorem parse_text_single_iff {t : Term} (h : t.address.Legible) :
    parse {} (text (.single (.term t))) = .ok (.single (.term t)) <->
      t.Legible := by
  have hfull : forall {P : Term -> Prop}, P t ->
      Full P (.single (.term t)) := by
    intro P ht e he
    rw [List.mem_singleton.mp he]
    exact Element.Full.term ht
  rw [parse_eq_ok_iff, text, String.toList_ofList]
  constructor
  · intro hread
    have hlegible := full_of_read rfl (hfull h) (Nat.zero_le _) (Or.inr rfl) hread
    exact (hlegible _ List.mem_cons_self).of_mem_leaves (by simp)
  · intro ht
    exact read_chars rfl (hfull ht) (Nat.zero_le _)

/-- The text of a term on a field is read as that term exactly when its value is
not empty, does not end in a blank, has no stop word in it and does not end with
the word of a relation behind a space. -/
theorem parse_text_field_iff (f : Field) (o : Operator) (value : String)
    (negated : Bool) :
    parse {} (text (.single (.term
        { address := .field f, operator := o, value := value,
          negated := negated }))) =
        .ok (.single (.term
          { address := .field f, operator := o, value := value,
            negated := negated })) <->
      value ≠ "" ∧
        (forall c, value.toList.getLast? = some c -> Text.isBlank c = false) ∧
        Text.NoStopWord value.toList ∧ Text.NoEnding value.toList := by
  refine Iff.trans (parse_text_single_iff ?_) ?_
  · exact trivial
  constructor
  · intro h
    exact ⟨mt String.toList_eq_nil_iff.mpr h.ne_nil, h.last, h.stop, h.ending⟩
  · intro hparts
    rcases hparts with ⟨hne, hlast, hstop, hending⟩
    constructor
    · exact trivial
    · exact mt String.toList_eq_nil_iff.mp hne
    · exact hlast
    · exact hstop
    · exact hending
    · intro label ha
      cases ha

theorem parse_text_field_ne_of_ending :
    "a AND" ≠ "" ∧
      (forall c, "a AND".toList.head? = some c -> Text.isBlank c = false) ∧
      (forall c, "a AND".toList.getLast? = some c -> Text.isBlank c = false) ∧
      Text.NoStopWord "a AND".toList ∧
      parse {} (text (.single
          (.term { address := .field .title, value := "a AND" }))) ≠
        .ok (.single (.term { address := .field .title, value := "a AND" })) := by
  refine ⟨by decide, ?_, ?_, ?_, ?_⟩
  · intro c hc
    cases hc
    rfl
  · intro c hc
    cases hc
    rfl
  · intro r
    cases r <;> decide
  · intro h
    have hread : parse {} (text (.single
        (.term { address := .field .title, value := "a AND" }))) =
          .ok (.single (.term { address := .field .title, value := "a" })) := rfl
    rw [hread] at h
    exact absurd (Except.ok.inj h) (by decide)

end Query

end SearchQuery
