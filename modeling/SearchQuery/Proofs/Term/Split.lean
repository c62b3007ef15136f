import SearchQuery.Proofs.Text.Escape
import SearchQuery.Fragment

/-!
# Splits of a term's text

What it takes for a text to be split in a given way: an operator is as long as a
value behind it allows, a name ends with the first character that is none of its
class, and a label ends with the last bracket that an operator and a value
follow.
-/

namespace SearchQuery

namespace Split

structure IsOperatorSplit (isOp : Char -> Bool) (text operator value : List Char) :
    Prop where
  text_eq : text = operator ++ value
  value_ne_nil : value ≠ []
  isOp_of_mem : forall c, c ∈ operator -> isOp c = true
  length : operator.length = 1 ∨ operator.length = 2
  longest : operator.length = 1 ->
    forall c rest, value = c :: rest -> isOp c = true -> rest = []

theorem operator?_eq_some_iff {isOp : Char -> Bool}
    {text operator value : List Char} :
    operator? isOp text = some (operator, value) <->
      IsOperatorSplit isOp text operator value := by
  constructor
  · intro h
    unfold operator? at h
    split at h
    next a b c rest =>
      split at h
      next ha =>
        split at h
        next hb =>
          cases h
          exact ⟨rfl, by simp, by simp [ha, hb], Or.inr rfl, by simp⟩
        next hb =>
          cases h
          refine ⟨rfl, by simp, by simp [ha], Or.inl rfl, ?_⟩
          intro _ d rest' hd hop
          injection hd with hd _
          rw [← hd] at hop
          exact absurd hop hb
      next => cases h
    next a b =>
      split at h
      next ha =>
        cases h
        refine ⟨rfl, by simp, by simp [ha], Or.inl rfl, ?_⟩
        intro _ d rest' hd _
        injection hd with _ hrest
        exact hrest.symm
      next => cases h
    next => cases h
  · intro hparts
    rcases hparts with ⟨rfl, hne, hop, hlength, hlongest⟩
    rcases operator with _ | ⟨a, _ | ⟨b, _ | ⟨c, operator⟩⟩⟩
    · simp at hlength
    · have ha := hop a (by simp)
      rcases value with _ | ⟨d, _ | ⟨e, value⟩⟩
      · exact absurd rfl hne
      · simp [operator?, ha]
      · have hd : isOp d = false := by
          rw [← Bool.not_eq_true]
          intro hd
          cases hlongest rfl d (e :: value) rfl hd
        simp [operator?, ha, hd]
    · have ha := hop a (by simp)
      have hb := hop b (by simp)
      rcases value with _ | ⟨d, value⟩
      · exact absurd rfl hne
      · simp [operator?, ha, hb]
    · simp at hlength

theorem operator?_eq_none_iff {isOp : Char -> Bool} {text : List Char} :
    operator? isOp text = none <->
      forall c d rest, text = c :: d :: rest -> isOp c = false := by
  constructor
  · intro h c d rest heq
    rcases heq with rfl
    rw [← Bool.not_eq_true]
    intro hc
    cases rest with
    | nil => simp [operator?, hc] at h
    | cons e rest =>
        rw [operator?, if_pos hc] at h
        split at h <;> cases h
  · intro h
    match text with
    | [] => rfl
    | [c] => rfl
    | [c, d] => simp [operator?, h c d [] rfl]
    | c :: d :: e :: rest => simp [operator?, h c d (e :: rest) rfl]

theorem named?_append {isName : Char -> Bool} {name rest : List Char}
    (hne : name ≠ []) (hname : forall c, c ∈ name -> isName c = true)
    (hrest : forall c, rest.head? = some c -> isName c = false) :
    named? isName (name ++ rest) =
      (operator? isComparison rest).map (fun p => ⟨name, p.1, p.2⟩) := by
  have htake : (name ++ rest).takeWhile isName = name := by
    rw [List.takeWhile_append_of_pos hname]
    cases rest with
    | nil => simp
    | cons c rest => simp [hrest c rfl]
  have hdrop : (name ++ rest).dropWhile isName = rest := by
    rw [List.dropWhile_append_of_pos hname]
    cases rest with
    | nil => rfl
    | cons c rest => simp [hrest c rfl]
  unfold named?
  rw [htake, hdrop]
  cases name with
  | nil => exact absurd rfl hne
  | cons c name => rfl

/-- A label ends with the last bracket that an operator and a value follow. -/
theorem closed?_eq_some_iff {text : List Char} {s : Split} :
    closed? text = some s <->
      exists rest, text = s.name ++ ']' :: rest ∧
        operator? isComparisonOrAt rest = some (s.operator, s.value) ∧
        closed? rest = none := by
  rcases s with ⟨name, operator, value⟩
  induction text generalizing name with
  | nil => simp [closed?]
  | cons c text ih =>
      constructor
      · intro h
        unfold closed? at h
        split at h
        next s hs =>
          cases h
          rcases (ih s.name).mp hs with ⟨rest, rfl, hop, hrest⟩
          exact ⟨rest, rfl, hop, hrest⟩
        next hnone =>
          split at h
          next hc =>
            rcases Option.map_eq_some_iff.mp h with ⟨p, hp, hsplit⟩
            cases hsplit
            exact ⟨text, by rw [hc]; rfl, hp, hnone⟩
          next => cases h
      · intro hparts
        rcases hparts with ⟨rest, htext, hop, hrest⟩
        rcases name with _ | ⟨d, name⟩
        · injection htext with hc htext
          subst htext
          rw [closed?, hrest, hc, hop]
          rfl
        · injection htext with hc htext
          rw [closed?, (ih name).mpr ⟨rest, htext, hop, hrest⟩, hc]

theorem closed?_eq_none_iff {text : List Char} :
    closed? text = none <->
      forall front rest, text = front ++ ']' :: rest ->
        operator? isComparisonOrAt rest = none := by
  constructor
  · intro h front rest heq
    rcases heq with rfl
    induction front with
    | nil =>
        rw [List.nil_append, closed?] at h
        split at h
        · cases h
        · simpa using h
    | cons c front ih =>
        apply ih
        rw [List.cons_append, closed?] at h
        split at h
        · cases h
        next hnone => exact hnone
  · intro h
    induction text with
    | nil => rfl
    | cons c text ih =>
        have hnone : closed? text = none := by
          apply ih
          intro front rest htext
          exact h (c :: front) rest (by rw [htext]; rfl)
        rw [closed?, hnone]
        by_cases hc : c = ']'
        · simp [hc, h [] text (by rw [hc]; rfl)]
        · simp [hc]

end Split

end SearchQuery
