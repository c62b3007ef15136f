import SearchQuery.Proofs.Term.Reading

/-!
# Decompositions of a term's text

What a text of each shape is made of, without saying how to find it: a lead, a name
or label, an operator of one or two characters and a value.  A text may be
decomposed in more than one way.  The shape that counts is the first that has a
decomposition, and of its decompositions the one that counts has the longest name
or label and then the longest operator.
-/

namespace SearchQuery

namespace Shape

def place : Shape -> Nat
  | statement => 1
  | collection => 2
  | technical => 3
  | field => 4

def closer : Shape -> List Char
  | technical => [']']
  | _ => []

def Allows (shape : Shape) (c : Char) : Prop :=
  match shape with
  | statement => c.isAlphanum = true ∨ c ∈ [':', '_', '.', '-']
  | collection => c.isAlphanum = true ∨ c ∈ [':', '_', '.', '-']
  | technical => True
  | field => c.isAlphanum = true ∨ c ∈ ['_', '.', '-']

def Compares (shape : Shape) (c : Char) : Prop :=
  match shape with
  | technical => c ∈ ['=', '<', '>', '@']
  | _ => c ∈ ['=', '<', '>']

/-- A text that is decomposed into the parts of a shape. -/
structure Decomposes (shape : Shape) (text : List Char) (s : Split) : Prop where
  text_eq : text =
    shape.lead ++ (s.name ++ (shape.closer ++ (s.operator ++ s.value)))
  name_ne_nil : s.name ≠ []
  allows : forall c, c ∈ s.name -> shape.Allows c
  compares : forall c, c ∈ s.operator -> shape.Compares c
  length : s.operator.length = 1 ∨ s.operator.length = 2
  value_ne_nil : s.value ≠ []

/-- The decomposition of a text that counts. -/
structure Decides (shape : Shape) (text : List Char) (s : Split) : Prop
    extends Decomposes shape text s where
  first : forall shape' : Shape, shape'.place < shape.place ->
    forall s', ¬ shape'.Decomposes text s'
  longest : forall s', shape.Decomposes text s' ->
    s'.name.length < s.name.length ∨
      s'.name.length = s.name.length ∧ s'.operator.length ≤ s.operator.length

end Shape

/-!
# Longest operators and labels
-/

namespace Split

variable {isOp : Char -> Bool} {operator value : List Char}

theorem exists_operator? (hop : forall c, c ∈ operator -> isOp c = true)
    (hlength : operator.length = 1 ∨ operator.length = 2) (hne : value ≠ []) :
    exists operator' value',
      operator? isOp (operator ++ value) = some (operator', value') ∧
        operator.length ≤ operator'.length := by
  cases h : operator? isOp (operator ++ value) with
  | none =>
      rw [operator?_eq_none_iff] at h
      rcases operator with _ | ⟨a, operator⟩
      · simp at hlength
      · cases hrest : operator ++ value with
        | nil => exact absurd (List.append_eq_nil_iff.mp hrest).2 hne
        | cons b rest =>
            have ha := h a b rest (by rw [List.cons_append, hrest])
            rw [hop a List.mem_cons_self] at ha
            cases ha
  | some p =>
      rcases p with ⟨operator', value'⟩
      refine ⟨operator', value', rfl, ?_⟩
      rcases operator?_eq_some_iff.mp h with ⟨htext, _, _, hlength', hlongest⟩
      rcases hlength with hone | htwo
      · omega
      rcases hlength' with hone' | htwo'
      · -- The second character would have been left to a value with more in it.
        rcases List.length_eq_two.mp htwo with ⟨a, b, rfl⟩
        rcases List.length_eq_one_iff.mp hone' with ⟨a', rfl⟩
        injection htext with _ hvalue
        have hb := hop b (by simp)
        exact absurd (hlongest hone' b value hvalue.symm hb) hne
      · omega

theorem closed?_longest {text front rest : List Char} {s : Split}
    {p : List Char × List Char} (hs : closed? text = some s)
    (htext : text = front ++ ']' :: rest)
    (hrest : operator? isComparisonOrAt rest = some p) :
    front.length < s.name.length ∨
      front = s.name ∧ p = (s.operator, s.value) := by
  rcases closed?_eq_some_iff.mp hs with ⟨rest', htext', hrest', hnone⟩
  rw [htext'] at htext
  rcases List.append_eq_append_iff.mp htext with ⟨x, hx, hcons⟩ | ⟨x, hx, hcons⟩
  · cases x with
    | nil =>
        injection hcons with _ hcons
        rw [← hcons, hrest'] at hrest
        injection hrest with hp
        exact Or.inr ⟨by rw [hx, List.append_nil], hp.symm⟩
    | cons d x =>
        -- A longer label would close in what is left behind the one that was found.
        injection hcons with _ hcons
        rw [closed?_eq_none_iff.mp hnone x rest hcons] at hrest
        cases hrest
  · cases x with
    | nil =>
        injection hcons with _ hcons
        rw [hcons, hrest'] at hrest
        injection hrest with hp
        exact Or.inr ⟨by rw [hx, List.append_nil], hp.symm⟩
    | cons d x =>
        refine Or.inl ?_
        rw [hx]
        simp

/-!
# Parts of a split
-/

theorem parts_of_named? {isNameChar : Char -> Bool} {text : List Char}
    {s : Split} (h : named? isNameChar text = some s) :
    text = s.name ++ (s.operator ++ s.value) ∧ s.name ≠ [] ∧
      (forall c, c ∈ s.name -> isNameChar c = true) ∧
      IsOperatorSplit isComparison (s.operator ++ s.value)
        s.operator s.value := by
  unfold named? at h
  split at h
  · cases h
  next htake hne =>
    rcases Option.map_eq_some_iff.mp h with ⟨p, hp, rfl⟩
    have hop := operator?_eq_some_iff.mp hp
    refine ⟨?_, hne, List.all_eq_true.mp List.all_takeWhile, ?_⟩
    · rw [← hop.text_eq, List.takeWhile_append_dropWhile]
    · rw [← hop.text_eq]
      exact hop

theorem parts_of_labelled? {text : List Char} {s : Split}
    (h : labelled? text = some s) :
    text = s.name ++ ']' :: (s.operator ++ s.value) ∧ s.name ≠ [] ∧
      IsOperatorSplit isComparisonOrAt (s.operator ++ s.value)
        s.operator s.value := by
  cases text with
  | nil => cases h
  | cons c text =>
      rcases Option.map_eq_some_iff.mp h with ⟨s', hs', rfl⟩
      rcases closed?_eq_some_iff.mp hs' with ⟨rest, rfl, hrest, _⟩
      have hop := operator?_eq_some_iff.mp hrest
      refine ⟨?_, by simp, ?_⟩
      · rw [← hop.text_eq]
        rfl
      · rw [← hop.text_eq]
        exact hop

theorem exists_named? {isNameChar : Char -> Bool}
    (hcomparison : forall c, isComparison c = true ->
      isNameChar c = false) {name operator value : List Char} (hne : name ≠ [])
    (hname : forall c, c ∈ name -> isNameChar c = true)
    (hop : forall c, c ∈ operator -> isComparison c = true)
    (hlength : operator.length = 1 ∨ operator.length = 2)
    (hvalue : value ≠ []) :
    exists s, named? isNameChar (name ++ (operator ++ value)) = some s ∧
      s.name = name ∧ operator.length ≤ s.operator.length := by
  rcases exists_operator? hop hlength hvalue with
    ⟨operator', value', hfound, hle⟩
  have hrest : forall c, (operator ++ value).head? = some c ->
      isNameChar c = false := by
    intro c hc
    apply hcomparison
    apply hop
    cases operator with
    | nil => simp at hlength
    | cons a operator =>
        cases hc
        exact List.mem_cons_self
  refine ⟨⟨name, operator', value'⟩, ?_, rfl, hle⟩
  rw [named?_append hne hname hrest, hfound]
  rfl

theorem exists_labelled? {name operator value : List Char} (hne : name ≠ [])
    (hop : forall c, c ∈ operator -> isComparisonOrAt c = true)
    (hlength : operator.length = 1 ∨ operator.length = 2)
    (hvalue : value ≠ []) :
    exists s, labelled? (name ++ ']' :: (operator ++ value)) = some s ∧
      (name.length < s.name.length ∨
        name.length = s.name.length ∧
          operator.length ≤ s.operator.length) := by
  rcases exists_operator? hop hlength hvalue with
    ⟨operator', value', hfound, hle⟩
  rcases name with _ | ⟨c, front⟩
  · exact absurd rfl hne
  have hclosed : closed? (front ++ ']' :: (operator ++ value)) ≠ none := by
    intro hnone
    rw [closed?_eq_none_iff] at hnone
    rw [hnone front _ rfl] at hfound
    cases hfound
  rcases Option.ne_none_iff_exists'.mp hclosed with ⟨s, hs⟩
  refine ⟨{ s with name := c :: s.name }, ?_, ?_⟩
  · show (closed? _).map _ = _
    rw [List.append_eq, hs]
    rfl
  · rcases closed?_longest hs rfl hfound with hlt | ⟨hname, hp⟩
    · exact Or.inl (Nat.succ_lt_succ hlt)
    · cases hp
      exact Or.inr ⟨by rw [hname], hle⟩

end Split

namespace Shape

/-!
# Splits are decompositions
-/

theorem isPath_iff {c : Char} :
    Split.isPath c = true <-> statement.Allows c := by
  simp only [Split.isPath, Split.isName, Allows, Bool.or_eq_true, beq_iff_eq,
    List.mem_cons, List.not_mem_nil, or_false]
  grind

theorem isName_iff {c : Char} : Split.isName c = true <-> field.Allows c := by
  simp only [Split.isName, Allows, Bool.or_eq_true, beq_iff_eq, List.mem_cons,
    List.not_mem_nil, or_false, or_assoc]

theorem isComparison_iff {c : Char} :
    Split.isComparison c = true <-> c ∈ ['=', '<', '>'] := by
  simp only [Split.isComparison, Bool.or_eq_true, beq_iff_eq, List.mem_cons,
    List.not_mem_nil, or_false, or_assoc]

theorem isComparisonOrAt_iff {c : Char} :
    Split.isComparisonOrAt c = true <-> c ∈ ['=', '<', '>', '@'] := by
  simp only [Split.isComparisonOrAt, Split.isComparison, Bool.or_eq_true,
    beq_iff_eq, List.mem_cons, List.not_mem_nil, or_false, or_assoc]

structure IsNamed (shape : Shape) (isNameChar : Char -> Bool) : Prop where
  splitBody?_eq : shape.splitBody? = Split.named? isNameChar
  closer_eq : shape.closer = []
  allows_iff : forall c, shape.Allows c <-> isNameChar c = true
  compares_iff : forall c, shape.Compares c <-> Split.isComparison c = true
  not_isNameChar : forall c, Split.isComparison c = true -> isNameChar c = false

theorem technical_or_isNamed (shape : Shape) :
    shape = technical ∨ exists isNameChar, shape.IsNamed isNameChar := by
  have hcompares : forall c, c ∈ ['=', '<', '>'] <-> Split.isComparison c = true :=
    fun _ => isComparison_iff.symm
  have hpath : forall c, Split.isComparison c = true -> Split.isPath c = false :=
    fun _ => Address.not_isPath_of_isComparison
  have hname : forall c, Split.isComparison c = true -> Split.isName c = false :=
    fun _ => Address.not_isName_of_isComparison
  cases shape with
  | statement =>
      exact Or.inr ⟨_, rfl, rfl, fun _ => isPath_iff.symm, hcompares, hpath⟩
  | collection =>
      exact Or.inr ⟨_, rfl, rfl, fun _ => isPath_iff.symm, hcompares, hpath⟩
  | technical => exact Or.inl rfl
  | field => exact Or.inr ⟨_, rfl, rfl, fun _ => isName_iff.symm, hcompares, hname⟩

theorem decomposes_of_split? {shape : Shape} {text : List Char} {s : Split}
    (h : shape.split? text = some s) : shape.Decomposes text s := by
  rcases split?_eq_some_iff.mp h with ⟨rest, rfl, hbody⟩
  rcases technical_or_isNamed shape with rfl | ⟨isNameChar, hnamed⟩
  · rcases Split.parts_of_labelled? hbody with ⟨rfl, hne, hop⟩
    refine ⟨rfl, hne, fun _ _ => trivial, ?_, hop.length, hop.value_ne_nil⟩
    intro c hc
    exact isComparisonOrAt_iff.mp (hop.isOp_of_mem c hc)
  · rw [hnamed.splitBody?_eq] at hbody
    rcases Split.parts_of_named? hbody with ⟨rfl, hne, hname, hop⟩
    refine ⟨?_, hne, ?_, ?_, hop.length, hop.value_ne_nil⟩
    · rw [hnamed.closer_eq, List.nil_append]
    · intro c hc
      exact (hnamed.allows_iff c).mpr (hname c hc)
    · intro c hc
      exact (hnamed.compares_iff c).mpr (hop.isOp_of_mem c hc)

/-!
# Decompositions are found
-/

/-- A text that can be decomposed is split, and no decomposition of it has a longer
name, or the same name and a longer operator. -/
theorem exists_split? {shape : Shape} {text : List Char} {s : Split}
    (h : shape.Decomposes text s) :
    exists s', shape.split? text = some s' ∧
      (s.name.length < s'.name.length ∨
        s.name.length = s'.name.length ∧
          s.operator.length ≤ s'.operator.length) := by
  have hop := h.compares
  rw [h.text_eq, split?_lead_append]
  rcases technical_or_isNamed shape with rfl | ⟨isNameChar, hnamed⟩
  · exact Split.exists_labelled? h.name_ne_nil
      (fun c hc => isComparisonOrAt_iff.mpr (hop c hc)) h.length h.value_ne_nil
  · rcases Split.exists_named? hnamed.not_isNameChar h.name_ne_nil
      (fun c hc => (hnamed.allows_iff c).mp (h.allows c hc))
      (fun c hc => (hnamed.compares_iff c).mp (hop c hc)) h.length
      h.value_ne_nil with ⟨s', hs', hname, hle⟩
    refine ⟨s', ?_, Or.inr ⟨by rw [hname], hle⟩⟩
    rw [hnamed.splitBody?_eq, hnamed.closer_eq, List.nil_append]
    exact hs'

theorem split?_eq_none_iff {shape : Shape} {text : List Char} :
    shape.split? text = none <-> forall s, ¬ shape.Decomposes text s := by
  constructor
  · intro hnone s h
    rcases exists_split? h with ⟨s', hs', _⟩
    rw [hnone] at hs'
    cases hs'
  · intro h
    rw [Option.eq_none_iff_forall_ne_some]
    intro s hs
    exact h s (decomposes_of_split? hs)

theorem Decomposes.eq_of_length {shape : Shape} {text : List Char} {s s' : Split}
    (h : shape.Decomposes text s) (h' : shape.Decomposes text s')
    (hname : s.name.length = s'.name.length)
    (hoperator : s.operator.length = s'.operator.length) : s = s' := by
  rcases s with ⟨name, operator, value⟩
  rcases s' with ⟨name', operator', value'⟩
  have htext := List.append_cancel_left (h.text_eq.symm.trans h'.text_eq)
  rcases List.append_inj htext hname with ⟨rfl, hrest⟩
  have hrest := List.append_cancel_left hrest
  rcases List.append_inj hrest hoperator with ⟨rfl, rfl⟩
  rfl

theorem split?_eq_some_iff_longest {shape : Shape} {text : List Char}
    {s : Split} :
    shape.split? text = some s <->
      shape.Decomposes text s ∧
        forall s', shape.Decomposes text s' ->
          s'.name.length < s.name.length ∨
            s'.name.length = s.name.length ∧
              s'.operator.length ≤ s.operator.length := by
  constructor
  · intro hs
    refine ⟨decomposes_of_split? hs, ?_⟩
    intro s' h'
    rcases exists_split? h' with ⟨s'', hs'', hle⟩
    rw [hs] at hs''
    cases hs''
    exact hle
  · intro hparts
    rcases hparts with ⟨h, hlongest⟩
    rcases exists_split? h with ⟨s', hs', hle⟩
    have h' := decomposes_of_split? hs'
    have hle' := hlongest s' h'
    rw [hs', h.eq_of_length h' (by omega) (by omega)]

/-!
# The shape that counts
-/

theorem ofText?_eq_none_iff {text : List Char} :
    ofText? text = none <-> forall shape s, ¬ Decomposes shape text s := by
  simp only [ofText?, List.findSome?_eq_none_iff, Option.map_eq_none_iff,
    split?_eq_none_iff]
  constructor
  · intro h shape
    apply h
    cases shape <;> simp
  · intro h shape _
    exact h shape

theorem forall_shape {P : Shape -> Prop} :
    (forall shape, P shape) <->
      P statement ∧ P collection ∧ P technical ∧ P field := by
  constructor
  · intro h
    exact ⟨h _, h _, h _, h _⟩
  · intro hparts shape
    rcases hparts with ⟨hstatement, hcollection, htechnical, hfield⟩
    cases shape <;> assumption

theorem ofText?_eq_some_iff_first {text : List Char} {shape : Shape}
    {s : Split} :
    ofText? text = some (shape, s) <->
      shape.split? text = some s ∧
        forall shape' : Shape, shape'.place < shape.place ->
          shape'.split? text = none := by
  rw [forall_shape]
  -- Which of the four shapes split the text is all that counts here.
  cases hstatement : statement.split? text <;>
    cases hcollection : collection.split? text <;>
    cases htechnical : technical.split? text <;>
    cases hfield : field.split? text <;>
    cases shape <;>
    simp [ofText?, List.findSome?, place, *]

theorem ofText?_eq_some_iff {text : List Char} {shape : Shape} {s : Split} :
    ofText? text = some (shape, s) <-> shape.Decides text s := by
  rw [ofText?_eq_some_iff_first, split?_eq_some_iff_longest]
  simp only [split?_eq_none_iff]
  constructor
  · intro hparts
    exact ⟨hparts.1.1, hparts.2, hparts.1.2⟩
  · intro h
    exact ⟨⟨h.toDecomposes, h.longest⟩, h.first⟩

end Shape

end SearchQuery
