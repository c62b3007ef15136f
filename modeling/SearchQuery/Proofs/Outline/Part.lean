import SearchQuery.Outline
import SearchQuery.Proofs.Text.Bracket
import SearchQuery.Proofs.Text.StopWord
import SearchQuery.Proofs.Text.Trim

/-!
# Parts as texts

A part keeps its characters in reverse and the escape flag beside them.  This
module says what its operations do to the text it stands for: which characters
are brackets behind it, when a stop word ends it, and which term it holds.
-/

namespace SearchQuery

theorem Text.trimEnd_append_ending (text : List Char) (r : Relation) :
    trimEnd (text ++ r.ending) = text ++ r.ending := by
  rw [trimEnd_eq_self_iff]
  intro c hc
  rw [List.getLast?_append] at hc
  cases r <;> (cases hc; rfl)

namespace Part

@[simp] theorem text_empty : ({} : Part).text = [] := rfl

@[simp] theorem text_push (p : Part) (c : Char) :
    (p.push c).text = p.text ++ [c] := by
  simp [text, push]

@[simp] theorem escaped_push (p : Part) (c : Char) :
    (p.push c).escaped = Text.escapesNext p.escaped c := rfl

def pushAll (p : Part) (text : List Char) : Part :=
  text.foldl push p

@[simp] theorem pushAll_nil (p : Part) : p.pushAll [] = p := rfl

@[simp] theorem pushAll_cons (p : Part) (c : Char) (rest : List Char) :
    p.pushAll (c :: rest) = (p.push c).pushAll rest := rfl

theorem pushAll_concat (p : Part) (text : List Char) (c : Char) :
    p.pushAll (text ++ [c]) = (p.pushAll text).push c := by
  simp [pushAll]

@[simp] theorem text_pushAll (p : Part) (text : List Char) :
    (p.pushAll text).text = p.text ++ text := by
  induction text generalizing p with
  | nil => simp
  | cons c rest ih => simp [ih]

@[simp] theorem escaped_pushAll (p : Part) (text : List Char) :
    (p.pushAll text).escaped = Text.escapedAfter p.escaped text := by
  induction text generalizing p with
  | nil => rfl
  | cons c rest ih => simp [ih]

/-!
# Brackets behind a part
-/

theorem opens_eq_true_iff {p : Part} {c : Char} :
    p.opens c = true <-> Text.bracket? p.escaped c = some .opening := by
  cases h : p.escaped with
  | true => simp [opens, Text.bracket?, h]
  | false =>
      by_cases ho : c = '('
      · simp [opens, Text.bracket?, h, ho]
      · by_cases hc : c = ')' <;> simp [opens, Text.bracket?, h, ho, hc]

theorem closes_eq_true_iff {p : Part} {c : Char} :
    p.closes c = true <-> Text.bracket? p.escaped c = some .closing := by
  cases h : p.escaped with
  | true => simp [closes, Text.bracket?, h]
  | false =>
      by_cases ho : c = '('
      · simp [closes, Text.bracket?, h, ho]
      · by_cases hc : c = ')' <;> simp [closes, Text.bracket?, h, ho, hc]

theorem opens_eq_false_of_none {p : Part} {c : Char}
    (h : Text.bracket? p.escaped c = none) : p.opens c = false := by
  rw [← Bool.not_eq_true, opens_eq_true_iff, h]
  simp

theorem closes_eq_false_of_none {p : Part} {c : Char}
    (h : Text.bracket? p.escaped c = none) : p.closes c = false := by
  rw [← Bool.not_eq_true, closes_eq_true_iff, h]
  simp

section Brackets

variable {p : Part} {c : Char}

theorem brackets_cons_of_opens (h : p.opens c = true) (rest : List Char) :
    Text.brackets p.escaped (c :: rest) =
      .opening :: Text.brackets false rest := by
  have hb := opens_eq_true_iff.mp h
  have hc := Text.eq_of_bracket?_opening hb
  rw [Text.brackets, hb, hc, Text.escapesNext_of_ne (by decide)]
  rfl

theorem brackets_cons_of_closes (h : p.closes c = true) (rest : List Char) :
    Text.brackets p.escaped (c :: rest) =
      .closing :: Text.brackets false rest := by
  have hb := closes_eq_true_iff.mp h
  have hc := Text.eq_of_bracket?_closing hb
  rw [Text.brackets, hb, hc, Text.escapesNext_of_ne (by decide)]
  rfl

theorem bracket?_of_neither (ho : p.opens c ≠ true) (hc : p.closes c ≠ true) :
    Text.bracket? p.escaped c = none := by
  cases hb : Text.bracket? p.escaped c with
  | none => rfl
  | some b =>
      cases b with
      | opening => exact absurd (opens_eq_true_iff.mpr hb) ho
      | closing => exact absurd (closes_eq_true_iff.mpr hb) hc

theorem brackets_cons_of_neither (ho : p.opens c ≠ true)
    (hc : p.closes c ≠ true) (rest : List Char) :
    Text.brackets p.escaped (c :: rest) =
      Text.brackets (p.push c).escaped rest := by
  rw [Text.brackets, bracket?_of_neither ho hc]
  rfl

theorem brackets_cons_of_blank (h : Text.isBlank c = true) (escaped : Bool)
    (rest : List Char) :
    Text.brackets escaped (c :: rest) = Text.brackets false rest := by
  have hne : forall d, Text.isBlank d = false -> c ≠ d :=
    fun _ => Text.ne_of_isBlank h
  rw [Text.brackets, Text.bracket?_of_ne (hne '(' rfl) (hne ')' rfl),
    Text.escapesNext_of_ne (hne '\\' rfl)]
  rfl

theorem opens_eq_false_of_blank (h : Text.isBlank c = true) :
    p.opens c = false :=
  opens_eq_false_of_none (Text.bracket?_of_ne (Text.ne_of_isBlank h rfl)
    (Text.ne_of_isBlank h rfl) _)

theorem closes_eq_false_of_blank (h : Text.isBlank c = true) :
    p.closes c = false :=
  closes_eq_false_of_none (Text.bracket?_of_ne (Text.ne_of_isBlank h rfl)
    (Text.ne_of_isBlank h rfl) _)

end Brackets

/-!
# Stop words and terms
-/

theorem stopWord?_eq_some_iff {p : Part} {r : Relation} :
    p.stopWord? = some r <-> r.stopWord <:+ p.text := by
  rw [text, ← List.reverse_prefix, List.reverse_reverse]
  constructor
  · intro h
    unfold stopWord? at h
    split at h
    next rest hread =>
      cases h
      exact ⟨rest, hread.symm⟩
    next rest hread =>
      cases h
      exact ⟨rest, hread.symm⟩
    next => cases h
  · intro hparts
    rcases hparts with ⟨rest, hread⟩
    unfold stopWord?
    rw [← hread]
    cases r <;> rfl

theorem stopWord?_eq_none_iff {p : Part} :
    p.stopWord? = none <-> forall r : Relation, ¬ r.stopWord <:+ p.text := by
  constructor
  · intro h r hr
    rw [stopWord?_eq_some_iff.mpr hr] at h
    cases h
  · intro h
    cases hstop : p.stopWord? with
    | none => rfl
    | some r => exact absurd (stopWord?_eq_some_iff.mp hstop) (h r)

theorem dropWhile_read (p : Part) :
    p.read.dropWhile Text.isBlank = (Text.trimEnd p.text).reverse := by
  rw [Text.trimEnd, text, List.reverse_reverse, List.reverse_reverse]

/-- One relation at the end of a part is no part of its term. -/
theorem term_of_ending {p : Part} {text : List Char} {r : Relation}
    (h : Text.trimEnd p.text = text ++ r.ending) :
    p.term = Text.trimEnd text := by
  rw [term, dropWhile_read, h, List.reverse_append]
  cases r <;> rfl

theorem term_of_no_ending {p : Part}
    (h : forall r : Relation, ¬ r.ending <:+ Text.trimEnd p.text) :
    p.term = Text.trimEnd p.text := by
  have hread := dropWhile_read p
  unfold term
  split
  next rest heq =>
    rw [heq] at hread
    apply absurd _ (h .and)
    rw [← List.reverse_prefix, ← hread]
    exact ⟨rest, rfl⟩
  next rest heq =>
    rw [heq] at hread
    apply absurd _ (h .or)
    rw [← List.reverse_prefix, ← hread]
    exact ⟨rest, rfl⟩
  next => rw [hread, List.reverse_reverse]

theorem term_of_stopWord {p : Part} {text : List Char} {r : Relation}
    (h : p.text = text ++ r.stopWord) : p.term = Text.trimEnd text := by
  apply term_of_ending (r := r)
  rw [h, Relation.stopWord, ← List.append_assoc,
    Text.trimEnd_concat_of_blank rfl, Text.trimEnd_append_ending]

end Part

end SearchQuery
