import Mathlib.Data.List.Basic
import SearchQuery.Proofs.Term.Legible
import SearchQuery.Proofs.Term.Split

/-!
# Operators in front of a value

The only character of an escaped value that an operator could take for its own is
an at sign, and only behind a technical label.  Where a value keeps apart from
its operator and its label, the operator ends where it was written to end.
-/

namespace SearchQuery

namespace Text

theorem eq_at_of_escape {value p : List Char} {c : Char}
    (hp : c :: p <+: escape value) (hc : Split.isComparisonOrAt c = true) :
    c = '@' ∧ exists rest, value = '@' :: rest ∧ p <+: escape rest := by
  cases value with
  | nil => simp [escape] at hp
  | cons d rest =>
      cases hd : isSpecial d with
      | true =>
          rw [escape_cons_of_special hd, List.cons_prefix_cons] at hp
          rw [hp.1] at hc
          cases hc
      | false =>
          rw [escape_cons_of_not_special hd, List.cons_prefix_cons] at hp
          rcases hp with ⟨rfl, hp⟩
          rw [Split.isComparisonOrAt, Bool.or_eq_true, beq_iff_eq] at hc
          rcases hc with hc | rfl
          · rw [Split.isSpecial_of_isComparison hc] at hd
            cases hd
          · exact ⟨rfl, rest, rfl, hp⟩

theorem not_isComparison_of_escape {value p : List Char} {c : Char}
    (hp : c :: p <+: escape value) : Split.isComparison c = false := by
  rw [← Bool.not_eq_true]
  intro hc
  have hat : Split.isComparisonOrAt c = true := by
    rw [Split.isComparisonOrAt, hc, Bool.true_or]
  rw [(eq_at_of_escape hp hat).1] at hc
  cases hc

end Text

namespace Split

variable {isOp : Char -> Bool} {o : Operator}

theorem operator?_token_append
    (hisOp : forall c, isComparison c = true -> isOp c = true)
    {value : List Char} (hne : value ≠ [])
    (hshort : o.token.toList.length = 1 ->
      forall c rest, value = c :: rest -> isOp c = true -> rest = []) :
    operator? isOp (o.token.toList ++ value) =
      some (o.token.toList, value) := by
  rw [operator?_eq_some_iff]
  refine ⟨rfl, hne, ?_, o.length_token, hshort⟩
  intro c hc
  exact hisOp c (Operator.isComparison_of_mem_token hc)

theorem eq_escape_of_same_length {token value p operator rest : List Char}
    (hp : p <+: Text.escape value) (htext : token ++ p = operator ++ rest)
    (hlength : token.length = operator.length) (hne : rest ≠ [])
    (hvalue : Text.unescape rest = value)
    (hlong : operator.length = 1 ->
      forall c tail, rest = c :: tail -> isOp c = true -> tail = []) :
    p = Text.escape value ∧ value ≠ [] ∧
      (isOp '@' = true -> token.length = 1 ->
        forall tail, value = '@' :: tail -> tail = []) := by
  rcases List.append_inj htext hlength with ⟨_, rfl⟩
  have hescape := Text.eq_escape_of_unescape hp hvalue
  refine ⟨hescape, ?_, ?_⟩
  · intro hnil
    rw [hescape, hnil] at hne
    exact hne rfl
  · intro hat hone tail htail
    rw [htail] at hescape
    apply Text.escape_eq_nil_iff.mp
    exact hlong (hlength ▸ hone) '@' (Text.escape tail) hescape hat

theorem eq_escape_of_operator? {value p operator rest : List Char}
    (hisOp : forall c, isOp c = true -> isComparisonOrAt c = true)
    (hp : p <+: Text.escape value)
    (h : operator? isOp (o.token.toList ++ p) = some (operator, rest))
    (hoperator : Operator.ofToken operator = o)
    (hvalue : Text.unescape rest = value) :
    p = Text.escape value ∧ value ≠ [] ∧
      (isOp '@' = true -> o.token.toList.length = 1 ->
        forall tail, value = '@' :: tail -> tail = []) := by
  rcases operator?_eq_some_iff.mp h with ⟨htext, hne, hall, hlength, hlong⟩
  rcases o.length_token with htoken | htoken <;>
    rcases hlength with hlength | hlength
  · exact eq_escape_of_same_length hp htext (by rw [htoken, hlength]) hne
      hvalue hlong
  · -- The operator has taken an at sign from the value, which is then shorter.
    rcases List.length_eq_one_iff.mp htoken with ⟨a, ha⟩
    rcases List.length_eq_two.mp hlength with ⟨b, c, hbc⟩
    rw [ha, hbc] at htext
    injection htext with _ hcons
    have hcons : p = c :: rest := hcons
    rw [hcons] at hp
    have hc := hisOp c (hall c (by rw [hbc]; simp))
    rcases (Text.eq_at_of_escape hp hc).2 with ⟨tail, htail, hrest⟩
    have hle := Text.length_unescape_le_of_isPrefix hrest
    rw [hvalue, htail] at hle
    exact absurd hle (Nat.not_succ_le_self _)
  · -- The second character of the operator has been left to the value.
    rcases List.length_eq_one_iff.mp hlength with ⟨a, ha⟩
    rw [ha] at htext hoperator
    cases o with
    | equals => cases htoken
    | greater => cases htoken
    | lesser => cases htoken
    | greaterEquals =>
        injection htext with hfirst _
        rw [← hfirst] at hoperator
        exact absurd hoperator (by decide)
    | lesserEquals =>
        injection htext with hfirst _
        rw [← hfirst] at hoperator
        exact absurd hoperator (by decide)
  · exact eq_escape_of_same_length hp htext (by rw [htoken, hlength]) hne
      hvalue hlong

end Split

namespace Term

/-- A value behind a technical label that lends its first character neither to
the operator nor, with what stands before it, to the label. -/
structure KeepsApart (o : Operator) (value : List Char) : Prop where
  operator : o.token.toList.length = 1 ->
    forall rest, value = '@' :: rest -> rest = []
  label : forall front rest, value = front ++ ']' :: '@' :: rest -> rest = []

end Term

namespace Split

theorem bracket_notMem_token (o : Operator) : ']' ∉ o.token.toList := by
  cases o <;> decide

theorem exists_eq_append_of_notMem {a b front rest : List Char} {c : Char}
    (hc : c ∉ a) (h : a ++ b = front ++ c :: rest) :
    exists x, b = x ++ c :: rest := by
  rcases List.append_eq_append_iff.mp h with ⟨x, _, hb⟩ | ⟨x, ha, hrest⟩
  · exact ⟨x, hb⟩
  · rcases x with _ | ⟨d, x⟩
    · exact ⟨[], hrest.symm⟩
    · apply absurd _ hc
      injection hrest with hd _
      rw [ha, hd]
      exact List.mem_append_right front List.mem_cons_self

theorem closed?_token_escape_eq_none_iff {o : Operator}
    {value : List Char} :
    closed? (o.token.toList ++ Text.escape value) = none <->
      forall front rest, value = front ++ ']' :: '@' :: rest ->
        rest = [] := by
  rw [closed?_eq_none_iff]
  constructor
  · intro h front rest heq
    rcases heq with rfl
    have hescape : o.token.toList ++
        Text.escape (front ++ ']' :: '@' :: rest) =
        (o.token.toList ++ Text.escape front) ++
          ']' :: '@' :: Text.escape rest := by
      rw [Text.escape_append, Text.escape_cons_of_not_special rfl,
        Text.escape_cons_of_not_special rfl, List.append_assoc]
    have hnone := h _ _ hescape
    rw [operator?_eq_none_iff] at hnone
    cases hrest : Text.escape rest with
    | nil => exact Text.escape_eq_nil_iff.mp hrest
    | cons d tail =>
        have hat := hnone '@' d tail (by rw [hrest])
        cases hat
  · intro h front rest htext
    rcases exists_eq_append_of_notMem (bracket_notMem_token o) htext with
      ⟨x, hvalue⟩
    rcases Text.eq_append_of_escape_eq rfl hvalue with ⟨a, b, hab, _, rfl⟩
    rw [operator?_eq_none_iff]
    intro c d tail hcons
    rw [← Bool.not_eq_true]
    intro hc
    have hescape : c :: d :: tail <+: Text.escape b :=
      hcons ▸ List.prefix_rfl
    rcases Text.eq_at_of_escape hescape hc with ⟨rfl, b', rfl, htail⟩
    have hnil := h a b' hab
    rw [hnil] at htail
    exact absurd htail (by simp [Text.escape])

end Split

end SearchQuery
