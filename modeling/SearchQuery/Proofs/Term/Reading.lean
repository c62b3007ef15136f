import SearchQuery.Proofs.Term.Address
import SearchQuery.Proofs.Term.Operator

/-!
# Reading the text of a term

The text of a term with a name that can be told is read as that term exactly when
its value is not empty and, behind a technical label, lends no character to the
operator or to the label.  A shorter text with the same head is never read as
that term.
-/

namespace SearchQuery

namespace Shape

theorem split?_eq_some_iff {shape : Shape} {text : List Char} {s : Split} :
    shape.split? text = some s <->
      exists rest, text = shape.lead ++ rest ∧
        shape.splitBody? rest = some s := by
  rw [split?, Option.bind_eq_some_iff]
  simp only [List.isPrefixOf?_eq_some_iff_append_eq]
  constructor
  · intro hparts
    rcases hparts with ⟨rest, rfl, h⟩
    exact ⟨rest, rfl, h⟩
  · intro hparts
    rcases hparts with ⟨rest, rfl, h⟩
    exact ⟨rest, rfl, h⟩

theorem split?_lead_append (shape : Shape) (rest : List Char) :
    shape.split? (shape.lead ++ rest) = shape.splitBody? rest := by
  cases h : shape.splitBody? rest with
  | some s => exact split?_eq_some_iff.mpr ⟨rest, rfl, h⟩
  | none =>
      rw [Option.eq_none_iff_forall_ne_some]
      intro s hs
      rcases split?_eq_some_iff.mp hs with ⟨rest', hrest, hs⟩
      rw [← List.append_cancel_left hrest, h] at hs
      cases hs

theorem split?_eq_none_of_not_lead {shape : Shape} {text : List Char}
    (h : ¬ shape.lead <+: text) : shape.split? text = none := by
  rw [Option.eq_none_iff_forall_ne_some]
  intro s hs
  rcases split?_eq_some_iff.mp hs with ⟨rest, rfl, _⟩
  exact h (List.prefix_append _ _)

theorem split?_of_ofText? {text : List Char} {shape : Shape} {s : Split}
    (h : ofText? text = some (shape, s)) : shape.split? text = some s := by
  rcases List.exists_of_findSome?_eq_some h with ⟨shape', _, hs⟩
  rcases Option.map_eq_some_iff.mp hs with ⟨s', hs', heq⟩
  cases heq
  exact hs'

end Shape

namespace Address

def closer : Address -> List Char
  | technical _ => [']']
  | _ => []

theorem chars_eq (a : Address) :
    a.chars = a.shape.lead ++ (a.name ++ a.closer) := by
  cases a with
  | field f => exact (List.append_nil _).symm
  | statement index subfield =>
      rw [chars_statement]
      exact congrArg _ (List.append_nil _).symm
  | collection label =>
      rw [chars_collection]
      exact congrArg _ (List.append_nil _).symm
  | technical label => exact chars_technical label

theorem named?_name {isNameChar : Char -> Bool} {name : List Char}
    (hne : name ≠ []) (hname : forall c, c ∈ name -> isNameChar c = true)
    (hcomparison : forall c, Split.isComparison c = true ->
      isNameChar c = false) (o : Operator) (rest : List Char) :
    Split.named? isNameChar (name ++ (o.token.toList ++ rest)) =
      (Split.operator? Split.isComparison (o.token.toList ++ rest)).map
        (fun p => ⟨name, p.1, p.2⟩) := by
  apply Split.named?_append hne hname
  intro c hc
  apply hcomparison
  apply Operator.isComparison_of_mem_token (o := o)
  cases htoken : o.token.toList with
  | nil => exact absurd htoken o.token_ne_nil
  | cons d tail =>
      rw [htoken] at hc
      cases hc
      exact List.mem_cons_self

theorem not_isPath_of_isComparison {c : Char}
    (h : Split.isComparison c = true) : Split.isPath c = false := by
  simp only [Split.isComparison, Bool.or_eq_true, beq_iff_eq] at h
  rcases h with (rfl | rfl) | rfl <;> rfl

theorem not_isName_of_isComparison {c : Char}
    (h : Split.isComparison c = true) : Split.isName c = false := by
  simp only [Split.isComparison, Bool.or_eq_true, beq_iff_eq] at h
  rcases h with (rfl | rfl) | rfl <;> rfl

theorem splitBody?_name {a : Address} (h : a.Legible)
    (hne : forall label, a ≠ technical label) (o : Operator)
    (rest : List Char) :
    a.shape.splitBody? (a.name ++ (o.token.toList ++ rest)) =
      (Split.operator? Split.isComparison (o.token.toList ++ rest)).map
        (fun p => ⟨a.name, p.1, p.2⟩) := by
  cases a with
  | field f =>
      apply named?_name (word_ne_nil f)
      · intro c hc
        exact (isName_of_mem_word hc).1
      · intro c
        exact not_isName_of_isComparison
  | statement index subfield =>
      rcases path_facts h with ⟨hpathne, hpath⟩
      apply named?_name hpathne hpath
      intro c
      exact not_isPath_of_isComparison
  | collection label =>
      rcases collectionPath_facts h with ⟨hpathne, hpath⟩
      apply named?_name hpathne hpath
      intro c
      exact not_isPath_of_isComparison
  | technical label => exact absurd rfl (hne label)

theorem splitBody?_label {label : String}
    (h : (technical label).Named) {rest operator value : List Char} :
    Shape.technical.splitBody? (label.toList ++ ']' :: rest) =
        some ⟨label.toList, operator, value⟩ <->
      Split.operator? Split.isComparisonOrAt rest =
          some (operator, value) ∧
        Split.closed? rest = none := by
  cases hlabel : label.toList with
  | nil => exact absurd hlabel h
  | cons c tail =>
      show (Split.closed? (tail ++ ']' :: rest)).map _ = _ <-> _
      constructor
      · intro hs
        rcases Option.map_eq_some_iff.mp hs with ⟨s, hclosed, heq⟩
        rcases Split.closed?_eq_some_iff.mp hclosed with
          ⟨rest', htext, hop, hnone⟩
        cases heq
        have hrest := List.append_cancel_left htext
        injection hrest with _ hrest
        rw [hrest]
        exact ⟨hop, hnone⟩
      · intro hparts
        rcases hparts with ⟨hop, hnone⟩
        have hclosed : Split.closed? (tail ++ ']' :: rest) =
            some ⟨tail, operator, value⟩ :=
          Split.closed?_eq_some_iff.mpr ⟨rest, rfl, hop, hnone⟩
        rw [hclosed]
        rfl

end Address

namespace Shape

theorem prefix_of_prefix_append_cons {lead a b : List Char} {c : Char}
    (hc : c ∉ lead) (h : lead <+: a ++ c :: b) : lead <+: a := by
  rcases List.prefix_or_prefix_of_prefix h (List.prefix_append a (c :: b)) with
    h | ⟨x, hx⟩
  · exact h
  · rw [← hx, List.prefix_append_right_inj] at h
    rcases List.prefix_cons_iff.mp h with rfl | ⟨tail, rfl, _⟩
    · exact ⟨[], by rw [← hx, List.append_nil, List.append_nil]⟩
    · apply absurd _ hc
      rw [← hx]
      exact List.mem_append_right a List.mem_cons_self

theorem not_lead_of_field (f : Field) (o : Operator) (rest : List Char)
    {shape : Shape} (hshape : shape ≠ .field) :
    ¬ shape.lead <+: f.word.toList ++ (o.token.toList ++ rest) := by
  intro h
  have hmem : exists c, c ∈ shape.lead ∧ (Split.isName c = false ∨ c = '.') := by
    cases shape with
    | statement => exact ⟨'.', by decide, Or.inr rfl⟩
    | collection => exact ⟨'.', by decide, Or.inr rfl⟩
    | technical => exact ⟨'[', by decide, Or.inl rfl⟩
    | field => exact absurd rfl hshape
  rcases hmem with ⟨c, hc, hname⟩
  have hword : c ∈ f.word.toList := by
    cases htoken : o.token.toList with
    | nil => exact absurd htoken o.token_ne_nil
    | cons d tail =>
        have hd : Split.isComparison d = true := by
          apply Operator.isComparison_of_mem_token (o := o)
          rw [htoken]
          exact List.mem_cons_self
        have hlead : d ∉ shape.lead := by
          intro hmem
          have hall : shape.lead.all (fun e => !Split.isComparison e) = true := by
            cases shape <;> decide
          have hnot := List.all_eq_true.mp hall d hmem
          rw [hd] at hnot
          cases hnot
        rw [htoken, List.cons_append] at h
        exact (prefix_of_prefix_append_cons hlead h).subset hc
  rcases Address.isName_of_mem_word hword with ⟨htrue, hdot⟩
  rcases hname with hfalse | hdot'
  · rw [htrue] at hfalse
    cases hfalse
  · exact hdot hdot'

theorem ofText?_chars {a : Address} {o : Operator} {rest : List Char}
    {s : Split}
    (hs : a.shape.split? (a.chars ++ (o.token.toList ++ rest)) = some s) :
    ofText? (a.chars ++ (o.token.toList ++ rest)) = some (a.shape, s) := by
  cases a with
  | field f =>
      have hnone : forall shape, shape ≠ Shape.field ->
          shape.split? ((Address.field f).chars ++
            (o.token.toList ++ rest)) = none := by
        intro shape hshape
        exact split?_eq_none_of_not_lead (not_lead_of_field f o rest hshape)
      have hs : Shape.field.split? _ = some s := hs
      simp [ofText?, hnone, hs, Address.shape]
  | statement index subfield =>
      have hs : Shape.statement.split? _ = some s := hs
      simp [ofText?, hs, Address.shape]
  | collection label =>
      have hnone : Shape.statement.split?
          ((Address.collection label).chars ++ (o.token.toList ++ rest)) =
            none := by
        apply split?_eq_none_of_not_lead
        intro hparts
        rcases hparts with ⟨x, hx⟩
        injection hx with hc _
        exact absurd hc (by decide)
      have hs : Shape.collection.split? _ = some s := hs
      simp [ofText?, hnone, hs, Address.shape]
  | technical label =>
      have hnone : forall shape, shape = Shape.statement ∨
          shape = Shape.collection -> shape.split?
          ((Address.technical label).chars ++ (o.token.toList ++ rest)) =
            none := by
        intro shape hshape
        apply split?_eq_none_of_not_lead
        rw [Address.chars_technical]
        rcases hshape with rfl | rfl
        · intro hparts
          rcases hparts with ⟨x, hx⟩
          injection hx with hc _
          exact absurd hc (by decide)
        · intro hparts
          rcases hparts with ⟨x, hx⟩
          injection hx with hc _
          exact absurd hc (by decide)
      have hs : Shape.technical.split? _ = some s := hs
      simp [ofText?, hnone, hs, Address.shape]

end Shape

namespace Address

theorem split?_chars_of_ne {a : Address} (h : a.Legible)
    (hne : forall label, a ≠ technical label) (o : Operator)
    (rest : List Char) :
    a.shape.split? (a.chars ++ (o.token.toList ++ rest)) =
      (Split.operator? Split.isComparison (o.token.toList ++ rest)).map
        (fun p => ⟨a.name, p.1, p.2⟩) := by
  have hcloser : a.closer = [] := by
    cases a with
    | technical label => exact absurd rfl (hne label)
    | _ => rfl
  rw [chars_eq, hcloser, List.append_nil, List.append_assoc,
    Shape.split?_lead_append]
  exact splitBody?_name h hne o rest

end Address

namespace Term

/-!
# Fragments that are terms
-/

variable {settings : Settings} {t : Term} {negated : Bool}

/-- The text of a term is split into its name, its operator and its value. -/
theorem ofText?_body (h : t.address.Named) (hne : t.value.toList ≠ [])
    (htechnical : forall label, t.address = .technical label ->
      KeepsApart t.operator t.value.toList) :
    Shape.ofText? t.body =
      some (t.address.shape, ⟨t.address.name, t.operator.token.toList,
        Text.escape t.value.toList⟩) := by
  have hescape : Text.escape t.value.toList ≠ [] := by
    intro hnil
    exact hne (Text.escape_eq_nil_iff.mp hnil)
  rw [body, head, List.append_assoc]
  apply Shape.ofText?_chars
  rcases Address.eq_technical_or t.address with ⟨label, ha⟩ | hother
  · rcases htechnical label ha with ⟨hoperator, hlabel⟩
    rw [ha] at h ⊢
    rw [Address.chars_technical, List.append_assoc, List.append_assoc]
    apply (Shape.split?_lead_append _ _).trans
    apply (Address.splitBody?_label h).mpr
    refine ⟨?_, Split.closed?_token_escape_eq_none_iff.mpr hlabel⟩
    apply Split.operator?_token_append _ hescape
    · intro hone c rest hcons hc
      have hp : c :: rest <+: Text.escape t.value.toList :=
        hcons ▸ List.prefix_rfl
      rcases (Text.eq_at_of_escape hp hc).2 with ⟨tail, htail, hrest⟩
      rw [hoperator hone tail htail] at hrest
      exact List.prefix_nil.mp hrest
    · intro c hc
      rw [Split.isComparisonOrAt, hc, Bool.true_or]
  · have hsplit : Split.operator? Split.isComparison
        (t.operator.token.toList ++ Text.escape t.value.toList) =
        some (t.operator.token.toList, Text.escape t.value.toList) := by
      apply Split.operator?_token_append _ hescape
      · intro _ c rest hcons hc
        have hp : c :: rest <+: Text.escape t.value.toList :=
          hcons ▸ List.prefix_rfl
        rw [Text.not_isComparison_of_escape hp] at hc
        cases hc
      · intro c hc
        exact hc
    rw [Address.split?_chars_of_ne (h.legible hother) hother, hsplit]
    rfl

theorem element_body (hs : settings.catalog = .standard)
    (h : t.address.Named) (hne : t.value.toList ≠ [])
    (htechnical : forall label, t.address = .technical label ->
      KeepsApart t.operator t.value.toList) :
    Fragment.element settings t.body negated =
      .ok (.term { t with negated := negated }) := by
  unfold Fragment.element
  split
  next hnil =>
    exact absurd (List.append_eq_nil_iff.mp hnil).1 t.head_ne_nil
  next =>
    rw [ofText?_body h hne htechnical]
    simp only [hs, Address.ofName_name h, Operator.ofToken_token,
      Text.unescape_escape, String.ofList_toList]
    rfl

end Term

namespace Fragment

theorem element_cases {settings : Settings} {text : List Char}
    {negated : Bool} {e : Element}
    (h : element settings text negated = .ok e) :
    (exists shape s address, Shape.ofText? text = some (shape, s) ∧
      Address.ofName settings.catalog s.name shape = .ok address ∧
      e = .term
        { address := address
          operator := Operator.ofToken s.operator
          value := String.ofList (Text.unescape s.value)
          negated := negated }) ∨
      Shape.ofText? text = none ∧
        e = .freeText settings.fulltextFallback
          (String.ofList (Text.unescape text)) negated := by
  unfold element at h
  split at h
  · cases h
  split at h
  next shape s htext =>
    cases haddress : Address.ofName settings.catalog s.name shape with
    | error cause =>
        rw [haddress] at h
        cases h
    | ok address =>
        rw [haddress] at h
        cases h
        exact Or.inl ⟨shape, s, address, htext, haddress, rfl⟩
  next htext =>
    split at h
    · cases h
    · cases h
      exact Or.inr ⟨htext, rfl⟩

theorem read_eq_ok_iff {settings : Settings} {text : List Char}
    {negated : Bool} {e : Element} :
    read settings text negated = .ok e <->
      element settings text negated = .ok e :=
  except_mapError_eq_ok_iff

theorem shape_of_read {settings : Settings} {text : List Char} {negated : Bool}
    {shape : Shape} {s : Split} (htext : Shape.ofText? text = some (shape, s))
    {e : Element} (h : read settings text negated = .ok e) :
    exists t : Term, e = .term t ∧ t.address.shape = shape := by
  rcases element_cases (read_eq_ok_iff.mp h) with
    ⟨shape', s', address, htext', haddress, rfl⟩ | ⟨hnone, _⟩
  · rw [htext] at htext'
    cases htext'
    exact ⟨_, rfl, (Address.shape_of_ofName haddress).1.symm⟩
  · rw [htext] at hnone
    cases hnone

end Fragment

namespace Term

variable {settings : Settings} {t : Term} {negated : Bool}

theorem exists_split_of_element {text : List Char} {u : Term}
    (hs : settings.fulltextFallback = true)
    (h : Fragment.element settings text negated = .ok (.term u)) :
    exists s, u.address.shape.split? text = some s ∧
      (u.address.shape = .technical -> s.name = u.address.name) ∧
      Operator.ofToken s.operator = u.operator ∧
      Text.unescape s.value = u.value.toList := by
  rcases Fragment.element_cases h with
    ⟨shape, s, address, htext, haddress, heq⟩ | ⟨_, heq⟩
  · cases heq
    rcases Address.shape_of_ofName haddress with ⟨hshape, hname⟩
    have hsplit := Shape.split?_of_ofText? htext
    rw [hshape] at hsplit
    exact ⟨s, hsplit, hname, rfl, String.toList_ofList.symm⟩
  · rw [Element.freeText, hs] at heq
    cases heq

/-- Of the texts that begin like a term only its whole text can be read as the
term. -/
theorem eq_escape_of_element {p : List Char} {u : Term}
    (hs : settings.fulltextFallback = true) (h : t.address.Named)
    (hp : p <+: Text.escape t.value.toList)
    (hread : Fragment.element settings (t.head ++ p) negated = .ok (.term u))
    (hu : { u with negated := t.negated } = t) :
    p = Text.escape t.value.toList ∧ t.value.toList ≠ [] ∧
      forall label, t.address = .technical label ->
        KeepsApart t.operator t.value.toList := by
  rcases exists_split_of_element hs hread with
    ⟨s, hsplit, hname, hoperator, hvalue⟩
  have haddress : u.address = t.address := by rw [← hu]
  have hop : u.operator = t.operator := by rw [← hu]
  have hval : u.value = t.value := by rw [← hu]
  rw [haddress] at hsplit hname
  rw [hop] at hoperator
  rw [hval] at hvalue
  rw [head, List.append_assoc] at hsplit
  rcases Address.eq_technical_or t.address with ⟨label, ha⟩ | hother
  · rw [ha] at h hsplit hname
    rw [Address.chars_technical, List.append_assoc, List.append_assoc] at hsplit
    have hlabel : s = ⟨label.toList, s.operator, s.value⟩ := by
      rw [← show s.name = label.toList from hname rfl]
    rw [hlabel] at hsplit
    have hbody := (Shape.split?_lead_append _ _).symm.trans hsplit
    rcases (Address.splitBody?_label h).mp hbody with ⟨hsplitop, hclosed⟩
    rcases Split.eq_escape_of_operator? (fun _ hc => hc) hp hsplitop hoperator
      hvalue with ⟨hescape, hne, hat⟩
    refine ⟨hescape, hne, fun _ _ => ⟨hat rfl, ?_⟩⟩
    rw [hescape] at hclosed
    exact Split.closed?_token_escape_eq_none_iff.mp hclosed
  · rw [Address.split?_chars_of_ne (h.legible hother) hother] at hsplit
    rcases Option.map_eq_some_iff.mp hsplit with ⟨⟨op, rest⟩, hsplitop, rfl⟩
    have hisOp : forall c, Split.isComparison c = true ->
        Split.isComparisonOrAt c = true := by
      intro c hc
      rw [Split.isComparisonOrAt, hc, Bool.true_or]
    rcases Split.eq_escape_of_operator? hisOp hp hsplitop hoperator hvalue with
      ⟨hescape, hne, _⟩
    refine ⟨hescape, hne, ?_⟩
    intro label ha
    exact absurd ha (hother label)

/-- A term that its text is read as.  What follows the operator must not be
empty, trimmed or cut, and behind a technical label it must keep apart from the
operator and the label. -/
structure Legible (t : Term) : Prop where
  address : t.address.Legible
  ne_nil : t.value.toList ≠ []
  last : forall c, t.value.toList.getLast? = some c -> Text.isBlank c = false
  stop : Text.NoStopWord t.value.toList
  ending : Text.NoEnding t.value.toList
  technical : forall label, t.address = .technical label ->
    KeepsApart t.operator t.value.toList

namespace Legible

theorem flat_body (h : t.Legible) : Flat t.body :=
  flat_head_append h.address (Text.brackets_escape _)
    (Text.noStopWord_escape_iff.mpr h.stop)

theorem noEnding_body (h : t.Legible) : Text.NoEnding t.body :=
  (noEnding_head_append_iff t).mpr (Text.noEnding_escape_iff.mpr h.ending)

theorem not_blank_of_getLast?_body (h : t.Legible) {c : Char}
    (hc : t.body.getLast? = some c) : Text.isBlank c = false := by
  rw [body, List.getLast?_append, Text.getLast?_escape] at hc
  cases hlast : t.value.toList.getLast? with
  | none => exact absurd (List.getLast?_eq_none_iff.mp hlast) h.ne_nil
  | some d =>
      rw [hlast] at hc
      cases hc
      exact h.last c hlast

theorem trimEnd_body (h : t.Legible) : Text.trimEnd t.body = t.body := by
  rw [Text.trimEnd_eq_self_iff]
  intro c hc
  exact h.not_blank_of_getLast?_body hc

end Legible

end Term

end SearchQuery
