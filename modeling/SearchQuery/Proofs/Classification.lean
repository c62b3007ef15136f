import SearchQuery.Proofs.Term.Decomposition

/-!
# What a fragment is read as

The grammar of fragments, as a relation between a fragment and what it is read as.
The decomposition that counts gives the address, the operator and the value of a
term.  A fragment that cannot be decomposed is an error if it looks like a term that
lost a part, and free text otherwise.  Reading follows this grammar: it gives the
one element, or the one error, that the grammar has for the fragment.
-/

namespace SearchQuery

/-!
# Names
-/

namespace Address

/-- What a name stands for in a term of a given shape.  A path is divided at its
dots, and only its first two segments count. -/
inductive Names (catalog : Catalog) :
    Shape -> List Char -> Except Cause Address -> Prop where
  | missingStatement {path : List Char} : (path.splitOn '.')[0]? = some [] ->
      Names catalog .statement path (.error .missingStatement)
  | statement {path index : List Char} :
      (path.splitOn '.')[0]? = some index -> index ≠ [] ->
      (path.splitOn '.')[1]?.getD [] = [] ->
      Names catalog .statement path
        (.ok (.statement (String.ofList index) none))
  | subfield {path index name : List Char} {f : Subfield} :
      (path.splitOn '.')[0]? = some index -> index ≠ [] ->
      (path.splitOn '.')[1]? = some name -> name ≠ [] ->
      catalog.subfield? (String.ofList name) = some f ->
      Names catalog .statement path
        (.ok (.statement (String.ofList index) (some f)))
  | unknownSubfield {path index name : List Char} :
      (path.splitOn '.')[0]? = some index -> index ≠ [] ->
      (path.splitOn '.')[1]? = some name -> name ≠ [] ->
      catalog.subfield? (String.ofList name) = none ->
      Names catalog .statement path
        (.error (.unknownSubfield (String.ofList name)))
  | collection {label : List Char} :
      Names catalog .collection label
        (.ok (.collection (String.ofList
          (label.map (fun c => if c = '_' then ' ' else c)))))
  | technical {label : List Char} :
      Names catalog .technical label (.ok (.technical (String.ofList label)))
  | field {name : List Char} {f : Field} :
      catalog.field? (String.ofList name) = some f ->
      Names catalog .field name (.ok (.field f))
  | unknownField {name : List Char} :
      catalog.field? (String.ofList name) = none ->
      Names catalog .field name (.error (.unknownField (String.ofList name)))

theorem segments (path : List Char) :
    (path.splitOn '.')[0]? = some (path.takeWhile (· ≠ '.')) ∧
      (path.splitOn '.')[1]?.getD [] =
        ((path.dropWhile (· ≠ '.')).drop 1).takeWhile (· ≠ '.') := by
  induction path with
  | nil => exact ⟨rfl, rfl⟩
  | cons c path ih =>
      rw [List.splitOn_cons_eq_if_modifyHead]
      by_cases hc : c = '.'
      · simp [hc, ih.1]
      · rcases ih with ⟨hzero, hone⟩
        cases hsegments : path.splitOn '.' with
        | nil => exact absurd hsegments (List.splitOn_ne_nil _ _)
        | cons first rest =>
            rw [hsegments] at hzero hone
            simp only [List.getElem?_cons_zero, Option.some.injEq] at hzero
            simpa [hc, hzero] using hone

theorem names_ofPath (catalog : Catalog) (path : List Char) :
    Names catalog .statement path (ofPath catalog path) := by
  rcases segments path with ⟨hzero, hone⟩
  unfold ofPath
  split
  next hindex => exact Names.missingStatement (by rw [hzero, hindex])
  next hindex =>
    split
    next hname => exact Names.statement hzero hindex (hone.trans hname)
    next hname =>
      have hsome : (path.splitOn '.')[1]? =
          some (((path.dropWhile (· ≠ '.')).drop 1).takeWhile (· ≠ '.')) := by
        rw [← hone] at hname ⊢
        cases hsecond : (path.splitOn '.')[1]? with
        | none =>
            rw [hsecond] at hname
            exact absurd rfl hname
        | some name => rfl
      split
      next f hf => exact Names.subfield hzero hindex hsome hname hf
      next hf => exact Names.unknownSubfield hzero hindex hsome hname hf

theorem names_ofName (catalog : Catalog) (name : List Char) (shape : Shape) :
    Names catalog shape name (ofName catalog name shape) := by
  cases shape with
  | statement => exact names_ofPath catalog name
  | collection => exact Names.collection
  | technical => exact Names.technical
  | field =>
      simp only [ofName]
      split
      next f hf => exact Names.field hf
      next hf => exact Names.unknownField hf

theorem Names.unique {catalog : Catalog} {shape : Shape} {name : List Char}
    {x y : Except Cause Address} (hx : Names catalog shape name x)
    (hy : Names catalog shape name y) : x = y := by
  cases hx <;> cases hy <;> simp_all

theorem ofName_eq_iff {catalog : Catalog} {shape : Shape} {name : List Char}
    {x : Except Cause Address} :
    ofName catalog name shape = x <-> Names catalog shape name x := by
  constructor
  · intro h
    rw [← h]
    exact names_ofName catalog name shape
  · intro h
    exact (names_ofName catalog name shape).unique h

end Address

/-!
# Terms that lost a part
-/

namespace Fragment

def LacksValue (text : List Char) : Prop :=
  exists word operator, text = word ++ operator ∧ word ≠ [] ∧
    (forall c, c ∈ word -> Text.isBlank c = false ∧ c ∉ ['=', '<', '>']) ∧
    word.getLast? ≠ some '\\' ∧
    (forall c, c ∈ operator -> c ∈ ['=', '<', '>']) ∧
    (operator.length = 1 ∨ operator.length = 2)

inductive Lacks (text : List Char) : Cause -> Prop where
  | missingField {c : Char} {rest : List Char} : text = c :: rest ->
      c ∈ ['=', '<', '>'] -> Lacks text .missingField
  | missingValue : LacksValue text -> Lacks text .missingValue
  | malformedTechnical : ¬ LacksValue text -> Shape.technical.lead <+: text ->
      Lacks text .malformedTechnical

theorem not_isComparison_iff {c : Char} :
    (!Split.isComparison c) = true <-> c ∉ ['=', '<', '>'] := by
  rw [Bool.not_eq_true', ← Bool.not_eq_true, Shape.isComparison_iff]

theorem takeWhile_word {word operator : List Char}
    (hword : forall c, c ∈ word -> c ∉ ['=', '<', '>'])
    (hoperator : forall c, c ∈ operator -> c ∈ ['=', '<', '>']) :
    (word ++ operator).takeWhile (fun c => !Split.isComparison c) = word ∧
      (word ++ operator).dropWhile (fun c => !Split.isComparison c) =
        operator := by
  have hall : forall c, c ∈ word -> (!Split.isComparison c) = true := by
    intro c hc
    exact not_isComparison_iff.mpr (hword c hc)
  rw [List.takeWhile_append_of_pos hall, List.dropWhile_append_of_pos hall]
  cases operator with
  | nil => simp
  | cons c operator =>
      have hc := Shape.isComparison_iff.mpr (hoperator c List.mem_cons_self)
      simp [hc]

theorem lacksValue_iff {text : List Char} :
    lacksValue text = true <-> LacksValue text := by
  constructor
  · intro h
    refine ⟨text.takeWhile (fun c => !Split.isComparison c),
      text.dropWhile (fun c => !Split.isComparison c),
      List.takeWhile_append_dropWhile.symm, ?_⟩
    unfold lacksValue at h
    dsimp only at h
    have hword := List.all_eq_true.mp
      (List.all_takeWhile (p := fun c => !Split.isComparison c) (l := text))
    generalize text.takeWhile (fun c => !Split.isComparison c) = word
      at h hword ⊢
    generalize text.dropWhile (fun c => !Split.isComparison c) = operator at h ⊢
    cases hlast : word.getLast? with
    | none =>
        rw [hlast] at h
        cases h
    | some last =>
        rw [hlast] at h
        simp only [Bool.and_eq_true, Bool.not_eq_true', List.any_eq_false,
          bne_iff_ne, List.all_eq_true, Bool.or_eq_true, beq_iff_eq] at h
        rcases h with ⟨⟨⟨hblank, hslash⟩, hoperator⟩, hlength⟩
        refine ⟨?_, ?_, ?_, ?_, hlength⟩
        · intro hnil
          rw [hnil] at hlast
          cases hlast
        · intro c hc
          exact ⟨by simpa using hblank c hc,
            not_isComparison_iff.mp (hword c hc)⟩
        · intro hc
          injection hc with hc
          exact hslash hc
        · intro c hc
          exact Shape.isComparison_iff.mp (hoperator c hc)
  · intro hparts
    rcases hparts with
      ⟨word, operator, rfl, hne, hword, hslash, hoperator, hlength⟩
    rcases takeWhile_word (fun c hc => (hword c hc).2) hoperator with
      ⟨htake, hdrop⟩
    unfold lacksValue
    dsimp only
    rw [htake, hdrop]
    cases hlast : word.getLast? with
    | none => exact absurd (List.getLast?_eq_none_iff.mp hlast) hne
    | some last =>
        simp only [Bool.and_eq_true, Bool.not_eq_true', List.any_eq_false,
          bne_iff_ne, List.all_eq_true, Bool.or_eq_true, beq_iff_eq]
        refine ⟨⟨⟨?_, ?_⟩, ?_⟩, hlength⟩
        · intro c hc
          simp [(hword c hc).1]
        · intro heq
          rw [hlast, heq] at hslash
          exact hslash rfl
        · intro c hc
          exact Shape.isComparison_iff.mpr (hoperator c hc)

theorem LacksValue.head {text : List Char} (h : LacksValue text) :
    text.head?.any Split.isComparison = false := by
  rcases h with ⟨word, operator, rfl, hne, hword, _⟩
  cases word with
  | nil => exact absurd rfl hne
  | cons c word =>
      have hc := (hword c List.mem_cons_self).2
      simpa using not_isComparison_iff.mpr hc

theorem dangling?_eq_some_iff {text : List Char} {cause : Cause} :
    dangling? text = some cause <-> Lacks text cause := by
  constructor
  · intro h
    unfold dangling? at h
    split at h
    next hhead =>
      cases h
      cases text with
      | nil => cases hhead
      | cons c rest => exact Lacks.missingField rfl (Shape.isComparison_iff.mp hhead)
    split at h
    next hvalue =>
      cases h
      exact Lacks.missingValue (lacksValue_iff.mp hvalue)
    next hvalue =>
      split at h
      next hlead =>
        cases h
        exact Lacks.malformedTechnical (mt lacksValue_iff.mpr hvalue)
          (List.isPrefixOf_iff_prefix.mp hlead)
      next => cases h
  · intro h
    unfold dangling?
    cases h with
    | @missingField c rest htext hc =>
        have hhead : text.head?.any Split.isComparison = true := by
          rw [htext]
          exact Shape.isComparison_iff.mpr hc
        rw [if_pos hhead]
    | missingValue hvalue =>
        rw [hvalue.head, if_neg Bool.false_ne_true,
          if_pos (lacksValue_iff.mpr hvalue)]
    | malformedTechnical hvalue hlead =>
        have hhead : text.head?.any Split.isComparison = false := by
          rcases hlead with ⟨rest, rfl⟩
          rfl
        rw [hhead, if_neg Bool.false_ne_true,
          if_neg (mt lacksValue_iff.mp hvalue),
          if_pos (List.isPrefixOf_iff_prefix.mpr hlead)]

theorem dangling?_eq_none_iff {text : List Char} :
    dangling? text = none <-> forall cause, ¬ Lacks text cause := by
  rw [Option.eq_none_iff_forall_ne_some]
  simp only [Ne, dangling?_eq_some_iff]

/-!
# Fragments
-/

/-- What the grammar has for a fragment. -/
inductive Means (settings : Settings) (text : List Char) (negated : Bool) :
    Except Fault Element -> Prop where
  | empty : text = [] -> Means settings text negated (.error ⟨.emptyTerm, text⟩)
  | term {shape : Shape} {s : Split} {address : Address} :
      shape.Decides text s ->
      Address.Names settings.catalog shape s.name (.ok address) ->
      Means settings text negated (.ok (.term
        { address := address
          operator := Operator.ofToken s.operator
          value := String.ofList (Text.unescape s.value)
          negated := negated }))
  | misnamed {shape : Shape} {s : Split} {cause : Cause} :
      shape.Decides text s ->
      Address.Names settings.catalog shape s.name (.error cause) ->
      Means settings text negated (.error ⟨cause, text⟩)
  | lacking {cause : Cause} : text ≠ [] ->
      (forall shape s, ¬ Shape.Decomposes shape text s) -> Lacks text cause ->
      Means settings text negated (.error ⟨cause, text⟩)
  | freeText : text ≠ [] ->
      (forall shape s, ¬ Shape.Decomposes shape text s) ->
      (forall cause, ¬ Lacks text cause) ->
      Means settings text negated (.ok (.freeText settings.fulltextFallback
        (String.ofList (Text.unescape text)) negated))

theorem read_of_shape {settings : Settings} {text : List Char} {shape : Shape}
    {s : Split} (h : Shape.ofText? text = some (shape, s)) (negated : Bool) :
    read settings text negated =
      ((Address.ofName settings.catalog s.name shape).map (fun address =>
        .term
          { address := address
            operator := Operator.ofToken s.operator
            value := String.ofList (Text.unescape s.value)
            negated := negated })).mapError (fun cause => ⟨cause, text⟩) := by
  unfold read element
  cases text with
  | nil => cases h
  | cons c rest => simp only [h]

theorem read_of_no_shape {settings : Settings} {text : List Char}
    (hne : text ≠ []) (h : Shape.ofText? text = none) (negated : Bool) :
    read settings text negated =
      match dangling? text with
      | some cause => .error ⟨cause, text⟩
      | none =>
          .ok (.freeText settings.fulltextFallback
            (String.ofList (Text.unescape text)) negated) := by
  unfold read element
  cases text with
  | nil => exact absurd rfl hne
  | cons c rest =>
      simp only [h]
      cases dangling? (c :: rest) <;> rfl

theorem means_read (settings : Settings) (text : List Char) (negated : Bool) :
    Means settings text negated (read settings text negated) := by
  by_cases hne : text = []
  · rw [hne]
    exact Means.empty rfl
  cases htext : Shape.ofText? text with
  | some shaped =>
      rcases shaped with ⟨shape, s⟩
      have hdecides := Shape.ofText?_eq_some_iff.mp htext
      rw [read_of_shape htext]
      cases haddress : Address.ofName settings.catalog s.name shape with
      | ok address =>
          exact Means.term hdecides (Address.ofName_eq_iff.mp haddress)
      | error cause =>
          exact Means.misnamed hdecides (Address.ofName_eq_iff.mp haddress)
  | none =>
      have hnone := Shape.ofText?_eq_none_iff.mp htext
      rw [read_of_no_shape hne htext]
      cases hcause : dangling? text with
      | some cause =>
          exact Means.lacking hne hnone (dangling?_eq_some_iff.mp hcause)
      | none => exact Means.freeText hne hnone (dangling?_eq_none_iff.mp hcause)

/-- A fragment is read as what the grammar has for it, and the grammar has one thing
for each fragment. -/
theorem read_eq_iff_means {settings : Settings} {text : List Char}
    {negated : Bool} {x : Except Fault Element} :
    read settings text negated = x <-> Means settings text negated x := by
  constructor
  · intro h
    rw [← h]
    exact means_read settings text negated
  · intro h
    cases h with
    | empty hnil =>
        rw [hnil]
        rfl
    | term hdecides hnames =>
        rw [read_of_shape (Shape.ofText?_eq_some_iff.mpr hdecides),
          Address.ofName_eq_iff.mpr hnames]
        rfl
    | misnamed hdecides hnames =>
        rw [read_of_shape (Shape.ofText?_eq_some_iff.mpr hdecides),
          Address.ofName_eq_iff.mpr hnames]
        rfl
    | lacking hne hnone hlacks =>
        rw [read_of_no_shape hne (Shape.ofText?_eq_none_iff.mpr hnone),
          dangling?_eq_some_iff.mpr hlacks]
    | freeText hne hnone hlacks =>
        rw [read_of_no_shape hne (Shape.ofText?_eq_none_iff.mpr hnone),
          dangling?_eq_none_iff.mpr hlacks]

example :
    read {} "technical[a]=b]>=".toList true = .ok (.term
      { address := .technical "a]=b"
        operator := .greater
        value := "="
        negated := true }) := rfl

end Fragment

end SearchQuery
