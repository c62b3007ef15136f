import SearchQuery.Proofs.Classification

/-!
# Terms that lost their value

A word with the token of an operator behind it and no value.  Such a text has no
shape unless the operator gives a character to the value or ends inside the word.
The first takes a token of two characters right behind an address that is complete.
The second takes an at sign, which only a technical label lets stand for an
operator: what is left of the word then counts as a value, and no value is lost.
Every other word with a token behind it is an error.
-/

namespace SearchQuery

namespace Fragment

/-- A text that is what a term has in front of its operator, with a name that
stands for an address. -/
def IsAddress (catalog : Catalog) (text : List Char) : Prop :=
  exists shape name address, text = Shape.lead shape ++ (name ++ shape.closer) ∧
    name ≠ [] ∧ (forall c, c ∈ name -> shape.Allows c) ∧
    Address.Names catalog shape name (.ok address)

def HasAt (text : List Char) : Prop :=
  exists label rest, label ≠ [] ∧
    text = Shape.technical.lead ++ (label ++ ']' :: '@' :: rest)

end Fragment

/-!
# Decompositions of a word with a token behind it
-/

namespace Shape

theorem not_compares_getLast {shape : Shape} {name : List Char} {c : Char}
    (hne : name ≠ []) (hallows : forall c, c ∈ name -> shape.Allows c)
    (h : (shape.lead ++ (name ++ shape.closer)).getLast? = some c) :
    c ∉ ['=', '<', '>'] := by
  rcases technical_or_isNamed shape with rfl | ⟨isNameChar, hnamed⟩
  · rw [← List.append_assoc, closer, List.getLast?_concat] at h
    cases h
    decide
  · rw [hnamed.closer_eq, List.append_nil,
      List.getLast?_append_of_ne_nil _ hne] at h
    have hc := (hnamed.allows_iff c).mp (hallows c (List.mem_of_getLast? h))
    rw [← isComparison_iff]
    intro hcomparison
    rw [hnamed.not_isNameChar c hcomparison] at hc
    cases hc

theorem Decomposes.mem_operator {shape : Shape} {text rest : List Char}
    {s : Split} {c : Char} (h : shape.Decomposes text s)
    (hrest : s.operator ++ s.value = c :: rest) : c ∈ s.operator := by
  have hlength := h.length
  cases hoperator : s.operator with
  | nil =>
      rw [hoperator] at hlength
      simp at hlength
  | cons d operator =>
      rw [hoperator] at hrest
      injection hrest with hd _
      rw [hd]
      exact List.mem_cons_self

theorem Decomposes.cases_of_append {shape : Shape} {word token : List Char}
    {s : Split} (hword : forall c, c ∈ word -> c ∉ ['=', '<', '>'])
    (htoken : forall c, c ∈ token -> c ∈ ['=', '<', '>'])
    (h : shape.Decomposes (word ++ token) s) :
    word = shape.lead ++ (s.name ++ shape.closer) ∧
        token = s.operator ++ s.value ∨
      shape = technical ∧ exists rest,
        word = shape.lead ++ (s.name ++ ']' :: '@' :: rest) := by
  have htext : word ++ token =
      (shape.lead ++ (s.name ++ shape.closer)) ++ (s.operator ++ s.value) := by
    rw [h.text_eq]
    simp only [List.append_assoc]
  rcases List.append_eq_append_iff.mp htext with
    ⟨x, hhead, hrest⟩ | ⟨x, hhead, hrest⟩
  · rcases List.eq_nil_or_concat x with rfl | ⟨x, c, rfl⟩
    · rw [List.append_nil] at hhead
      exact Or.inl ⟨hhead.symm, hrest⟩
    · -- What stands in front of the operator would end in a part of the token.
      have hc : c ∈ token := by
        rw [hrest]
        simp
      refine absurd (htoken c hc) (not_compares_getLast h.name_ne_nil h.allows ?_)
      rw [hhead, List.concat_eq_append, ← List.append_assoc,
        List.getLast?_concat]
  · cases x with
    | nil =>
        rw [List.append_nil] at hhead
        exact Or.inl ⟨hhead, hrest.symm⟩
    | cons c x =>
        -- The operator begins with a character of the word.
        have hc := hword c (by rw [hhead]; simp)
        have hcompares := h.compares c (h.mem_operator hrest)
        rcases technical_or_isNamed shape with rfl | ⟨isNameChar, hnamed⟩
        · refine Or.inr ⟨rfl, x, ?_⟩
          have hat : c = '@' := by
            simp only [Compares, List.mem_cons, List.not_mem_nil, or_false]
              at hcompares hc
            tauto
          rw [hhead, hat]
          simp only [closer, List.append_assoc, List.cons_append,
            List.nil_append]
        · rw [hnamed.compares_iff, isComparison_iff] at hcompares
          exact absurd hcompares hc

theorem exists_ofText?_of_at {label value : List Char} (hlabel : label ≠ [])
    (hvalue : value ≠ []) :
    exists s, ofText? (technical.lead ++ (label ++ ']' :: '@' :: value)) =
      some (technical, s) := by
  have h : technical.Decomposes
      (technical.lead ++ (label ++ ']' :: '@' :: value)) ⟨label, ['@'], value⟩ := by
    refine ⟨rfl, hlabel, fun _ _ => trivial, ?_, Or.inl rfl, hvalue⟩
    intro c hc
    rw [List.mem_singleton.mp hc]
    simp [Compares]
  rcases exists_split? h with ⟨s, hs, _⟩
  refine ⟨s, ofText?_eq_some_iff_first.mpr ⟨hs, ?_⟩⟩
  intro shape hplace
  apply split?_eq_none_of_not_lead
  intro hlead
  cases shape with
  | statement =>
      rcases hlead with ⟨rest, hrest⟩
      cases hrest
  | collection =>
      rcases hlead with ⟨rest, hrest⟩
      cases hrest
  | technical => exact absurd hplace (by decide)
  | field => exact absurd hplace (by decide)

end Shape

/-!
# Reading a word with a token behind it
-/

namespace Fragment

variable {settings : Settings} {word token : List Char}

theorem word_of_all
    (h : word.all (fun c => !Text.isBlank c && c ∉ ['\\', '=', '<', '>']) =
      true) :
    forall c, c ∈ word -> Text.isBlank c = false ∧ c ∉ ['\\', '=', '<', '>'] := by
  intro c hc
  have hc := List.all_eq_true.mp h c hc
  rw [Bool.and_eq_true, Bool.not_eq_true', decide_eq_true_iff] at hc
  exact hc

theorem lacksValue_append (hne : word ≠ [])
    (hword : forall c, c ∈ word ->
      Text.isBlank c = false ∧ c ∉ ['\\', '=', '<', '>'])
    (htoken : forall c, c ∈ token -> c ∈ ['=', '<', '>'])
    (hlength : token.length = 1 ∨ token.length = 2) :
    LacksValue (word ++ token) := by
  refine ⟨word, token, rfl, hne, ?_, ?_, htoken, hlength⟩
  · intro c hc
    exact ⟨(hword c hc).1, mt (List.mem_cons_of_mem _) (hword c hc).2⟩
  · intro hlast
    exact (hword _ (List.mem_of_getLast? hlast)).2 List.mem_cons_self

theorem exists_read_append_eq_error (hne : word ≠ [])
    (hword : forall c, c ∈ word ->
      Text.isBlank c = false ∧ c ∉ ['\\', '=', '<', '>'])
    (htoken : forall c, c ∈ token -> c ∈ ['=', '<', '>'])
    (hlength : token.length = 1 ∨ token.length = 2) (negated : Bool)
    (hat : ¬ HasAt word)
    (hhead : token.length = 2 -> ¬ IsAddress settings.catalog word) :
    exists fault, read settings (word ++ token) negated = .error fault := by
  cases hread : read settings (word ++ token) negated with
  | error fault => exact ⟨fault, rfl⟩
  | ok e =>
      have hmeans := means_read settings (word ++ token) negated
      rw [hread] at hmeans
      cases hmeans with
      | @term shape s address hdecides hnames =>
          have hcomparison : forall c, c ∈ word -> c ∉ ['=', '<', '>'] :=
            fun c hc => mt (List.mem_cons_of_mem _) (hword c hc).2
          rcases hdecides.toDecomposes.cases_of_append hcomparison htoken with
            ⟨hword_eq, htoken_eq⟩ | ⟨rfl, rest, hword_eq⟩
          · have htwo : token.length = 2 := by
              have hvalue := List.length_pos_iff.mpr hdecides.value_ne_nil
              have hoperator := hdecides.length
              rw [htoken_eq, List.length_append] at hlength ⊢
              omega
            exact absurd
              ⟨shape, s.name, address, hword_eq, hdecides.name_ne_nil,
                hdecides.allows, hnames⟩
              (hhead htwo)
          · exact absurd ⟨s.name, rest, hdecides.name_ne_nil, hword_eq⟩ hat
      | freeText _ _ hlacks =>
          exact absurd
            (Lacks.missingValue (lacksValue_append hne hword htoken hlength))
            (hlacks _)

theorem exists_read_at_eq_ok (settings : Settings) {label value : List Char}
    (hlabel : label ≠ []) (hvalue : value ≠ []) (negated : Bool) :
    exists label' operator value', read settings
        (Shape.technical.lead ++ (label ++ ']' :: '@' :: value)) negated =
      .ok (.term
        { address := .technical label'
          operator := operator
          value := value'
          negated := negated }) := by
  rcases Shape.exists_ofText?_of_at hlabel hvalue with ⟨s, hs⟩
  refine ⟨String.ofList s.name, Operator.ofToken s.operator,
    String.ofList (Text.unescape s.value), ?_⟩
  rw [read_of_shape hs]
  rfl

end Fragment

namespace Element

/-- A word with the token of an operator behind it is an error unless it begins with
a technical label and an at sign, or it is a complete address and the token has two
characters.  With more behind the at sign it is a technical term. -/
theorem ofFragment_append_token {word : String} (hne : word ≠ "")
    (hword : forall c, c ∈ word.toList ->
      Text.isBlank c = false ∧ c ∉ ['\\', '=', '<', '>'])
    (settings : Settings) (o : Operator) (negated : Bool) :
    (¬ Fragment.HasAt word.toList ->
      (o.token.toList.length = 2 ->
        ¬ Fragment.IsAddress settings.catalog word.toList) ->
      exists error,
        ofFragment settings (word ++ o.token) negated = .error error) ∧
    (forall label value, label ≠ [] -> value ≠ [] ->
      word.toList = Shape.technical.lead ++ (label ++ ']' :: '@' :: value) ->
      exists label' operator value',
        ofFragment settings (word ++ o.token) negated =
          .ok (.term
            { address := .technical label'
              operator := operator
              value := value'
              negated := negated })) := by
  constructor
  · intro hat hhead
    have htoken : forall c, c ∈ o.token.toList -> c ∈ ['=', '<', '>'] :=
      fun c hc => Shape.isComparison_iff.mp (Operator.isComparison_of_mem_token hc)
    rcases Fragment.exists_read_append_eq_error
      (mt String.toList_eq_nil_iff.mp hne) hword htoken o.length_token negated
      hat hhead with ⟨fault, hread⟩
    refine ⟨ParseError.ofFault (word ++ o.token) fault, ?_⟩
    rw [ofFragment, String.toList_append, hread]
    rfl
  · intro label value hlabel hvalue heq
    have hvalue' : value ++ o.token.toList ≠ [] := by
      intro hnil
      exact hvalue (List.append_eq_nil_iff.mp hnil).1
    rcases Fragment.exists_read_at_eq_ok settings hlabel hvalue' negated with
      ⟨label', operator, value', hread⟩
    refine ⟨label', operator, value', ?_⟩
    rw [ofFragment, String.toList_append, heq]
    simp only [List.append_assoc, List.cons_append]
    rw [hread]
    rfl

theorem ofFragment_append_token_shade :
    ("shade" ≠ "" ∧
      (forall c, c ∈ "shade".toList ->
        Text.isBlank c = false ∧ c ∉ ['\\', '=', '<', '>']) ∧
      ¬ Fragment.HasAt "shade".toList ∧
      ¬ Fragment.IsAddress .standard "shade".toList ∧
      exists error, ofFragment {} ("shade" ++ Operator.greaterEquals.token) true =
        .error error) ∧
    (exists label operator value,
      ofFragment {} ("technical[a]@b" ++ Operator.greaterEquals.token) true =
        .ok (.term
          { address := .technical label
            operator := operator
            value := value
            negated := true })) := by
  have hat : ¬ Fragment.HasAt "shade".toList := by
    intro hat
    rcases hat with ⟨label, rest, _, htext⟩
    cases htext
  have haddress : ¬ Fragment.IsAddress .standard "shade".toList := by
    intro haddress
    rcases haddress with ⟨shape, name, address, htext, _, _, hnames⟩
    cases shape with
    | field =>
        have hname : "shade".toList = name := by
          rw [htext]
          exact List.append_nil name
        cases hnames with
        | @field _ f hf =>
            have hnone : Catalog.standard.field?
                (String.ofList "shade".toList) = none := rfl
            rw [← hname, hnone] at hf
            cases hf
    | statement => cases htext
    | collection => cases htext
    | technical => cases htext
  have hword : forall c, c ∈ "shade".toList ->
      Text.isBlank c = false ∧ c ∉ ['\\', '=', '<', '>'] :=
    Fragment.word_of_all rfl
  refine ⟨⟨by decide, hword, hat, haddress, ?_⟩, ?_⟩
  · exact (ofFragment_append_token (by decide) hword {} .greaterEquals true).1
      hat (fun _ => haddress)
  · exact (ofFragment_append_token (by decide) (Fragment.word_of_all rfl) {}
      .greaterEquals true).2 ['a'] ['b'] (by decide) (by decide) rfl

theorem ofFragment_append_token_ne_error :
    "technical[a]@b" ≠ "" ∧
      (forall c, c ∈ "technical[a]@b".toList ->
        Text.isBlank c = false ∧ c ∉ ['\\', '=', '<', '>']) ∧
      forall error,
        ofFragment {} ("technical[a]@b" ++ Operator.equals.token) false ≠
          .error error := by
  refine ⟨by decide, Fragment.word_of_all rfl, ?_⟩
  intro error h
  have hread :
      ofFragment {} ("technical[a]@b" ++ Operator.equals.token) false =
        .ok (.term { address := .technical "a", value := "b=" }) := rfl
  rw [hread] at h
  cases h

end Element

end SearchQuery
