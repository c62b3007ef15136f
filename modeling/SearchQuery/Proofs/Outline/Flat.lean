import SearchQuery.Proofs.Outline.Scan

/-!
# Flat texts

A flat text is held back as one part: it does not begin with a blank, none of
its brackets counts, its first word is not reserved, and no stop word stands in
it.  The end of the whole text, or a stop word behind it, makes it a piece.
-/

namespace SearchQuery

namespace Text

def firstWord (text : List Char) : List Char :=
  text.takeWhile (fun c => !isBlank c)

theorem firstWord_of_no_blank {text : List Char}
    (h : text.any isBlank = false) : firstWord text = text := by
  have hall : forall c, c ∈ text -> (!isBlank c) = true := by
    intro c hc
    simpa using List.any_eq_false.mp h c hc
  have happend : (text ++ []).takeWhile (fun c => !isBlank c) = text ++ [] :=
    List.takeWhile_append_of_pos hall
  rwa [List.append_nil] at happend

theorem firstWord_append_of_blank {a : List Char} (h : a.any isBlank = true)
    (b : List Char) : firstWord (a ++ b) = firstWord a := by
  rw [firstWord, List.takeWhile_append, if_neg]
  · rfl
  · intro hlen
    have hself : a.takeWhile (fun c => !isBlank c) = a :=
      (List.takeWhile_sublist _).eq_of_length hlen
    have hall : (a.takeWhile (fun c => !isBlank c)).all
        (fun c => !isBlank c) = true := List.all_takeWhile
    rcases List.any_eq_true.mp h with ⟨c, hc, hblank⟩
    rw [hself] at hall
    have hnot := List.all_eq_true.mp hall c hc
    rw [hblank] at hnot
    cases hnot

theorem firstWord_append_blank {a : List Char} (h : a.any isBlank = false)
    {c : Char} (hc : isBlank c = true) (b : List Char) :
    firstWord (a ++ c :: b) = a := by
  have ha : forall d, d ∈ a -> (!isBlank d) = true := by
    intro d hd
    rw [List.any_eq_false] at h
    simpa using h d hd
  rw [firstWord, List.takeWhile_append_of_pos ha, List.takeWhile_cons,
    if_neg (by rw [hc]; exact Bool.false_ne_true), List.append_nil]

end Text

/-- A text that is held back as one part. -/
structure Flat (text : List Char) : Prop where
  head : forall c, text.head? = some c -> Text.isBlank c = false
  brackets : Text.brackets false text = []
  word : text.any Text.isBlank = true ->
    Keyword.ofWord? (Text.firstWord text) = none
  stop : Text.NoStopWord text

namespace Flat

theorem of_append {a b : List Char} (h : Flat (a ++ b)) : Flat a where
  head := by
    intro c hc
    apply h.head
    rw [List.head?_append, hc]
    rfl
  brackets := (Text.brackets_append_eq_nil_iff.mp h.brackets).1
  word := by
    intro hblank
    rw [← Text.firstWord_append_of_blank hblank b]
    apply h.word
    rw [List.any_append, hblank]
    rfl
  stop := h.stop.of_append

theorem append {a b : List Char} (h : Flat a) (hne : a ≠ [])
    (hbrackets : Text.brackets (Text.escapedAfter false a) b = [])
    (hword : Keyword.ofWord? (Text.firstWord (a ++ b)) = none)
    (hstop : Text.NoStopWord (a ++ b)) : Flat (a ++ b) where
  head := by
    intro c hc
    cases a with
    | nil => exact absurd rfl hne
    | cons d a => exact h.head c hc
  brackets := Text.brackets_append_eq_nil_iff.mpr ⟨h.brackets, hbrackets⟩
  word := fun _ => hword
  stop := hstop

theorem firstWord_append_space {a : List Char} (b : List Char) :
    Text.firstWord (a ++ ' ' :: b) = Text.firstWord a := by
  cases h : a.any Text.isBlank with
  | true => exact Text.firstWord_append_of_blank h _
  | false =>
      rw [Text.firstWord_append_blank h rfl,
        Text.firstWord_of_no_blank h]

theorem append_ending {text : List Char} (h : Flat text) (hne : text ≠ [])
    (hword : Keyword.ofWord? (Text.firstWord text) = none)
    (hend : Text.NoEnding text) (r : Relation) :
    Flat (text ++ r.ending) := by
  apply h.append hne
  · apply Text.brackets_of_notMem
    · cases r <;> decide
    · cases r <;> decide
  · rw [Relation.ending, firstWord_append_space]
    exact hword
  · exact h.stop.append_ending hend r

end Flat

namespace Reading

def holding (r : Reading) (text : List Char) : Reading :=
  let part := Part.pushAll {} text
  { r with
    stage :=
      if text = [] then .gap
      else if text.any Text.isBlank then .term part
      else .word part }

theorem holding_nil {r : Reading} (hr : r.stage = .gap) :
    r.holding [] = r := by
  rcases r with ⟨stage, negated, relation⟩
  cases hr
  rfl

theorem holding_word (r : Reading) {text : List Char} (hne : text ≠ [])
    (h : text.any Text.isBlank = false) :
    r.holding text = { r with stage := .word (Part.pushAll {} text) } := by
  rw [holding, if_neg hne, h]
  rfl

theorem holding_term (r : Reading) {text : List Char} (hne : text ≠ [])
    (h : text.any Text.isBlank = true) :
    r.holding text = { r with stage := .term (Part.pushAll {} text) } := by
  rw [holding, if_neg hne, h]
  rfl

section Step

variable {l : Level} {r : Reading} {text : List Char} {c : Char}

theorem not_bracket_of_flat (h : Text.brackets false (text ++ [c]) = []) :
    (Part.pushAll {} text).opens c = false ∧
      (Part.pushAll {} text).closes c = false := by
  have hnil := (Text.brackets_append_eq_nil_iff.mp h).2
  have hpart : Text.bracket? (Part.pushAll {} text).escaped c = none := by
    rw [Part.escaped_pushAll]
    cases hb : Text.bracket? (Text.escapedAfter false text) c with
    | none => rfl
    | some b =>
        rw [Text.brackets, hb] at hnil
        cases hnil
  exact ⟨Part.opens_eq_false_of_none hpart, Part.closes_eq_false_of_none hpart⟩

/-- One more character of a flat text is held back too. -/
theorem step_holding (hr : r.stage = .gap) (h : Flat (text ++ [c])) :
    (r.holding text).step l c = .go (r.holding (text ++ [c])) := by
  rcases not_bracket_of_flat h.brackets with ⟨hopens, hcloses⟩
  have hne : text ++ [c] ≠ [] := by simp
  by_cases hnil : text = []
  · subst hnil
    have hc := h.head c rfl
    have hword : ([] ++ [c]).any Text.isBlank = false := by simp [hc]
    rw [holding_nil hr, holding_word r hne hword]
    simp only [Part.pushAll_nil] at hopens hcloses
    simp [step, hr, hc, hopens, hcloses]
  cases hblank : text.any Text.isBlank with
  | true =>
      have hterm : (text ++ [c]).any Text.isBlank = true := by
        rw [List.any_append, hblank, Bool.true_or]
      have hstop : ((Part.pushAll {} text).push c).stopWord? = none := by
        rw [Part.stopWord?_eq_none_iff]
        intro s hs
        apply h.stop s
        rw [Part.text_push, Part.text_pushAll] at hs
        exact hs.isInfix
      rw [holding_term r hnil hblank, holding_term r hne hterm]
      simp [step, hopens, hcloses, hstop, Part.pushAll_concat]
  | false =>
      rw [holding_word r hnil hblank]
      cases hc : Text.isBlank c with
      | true =>
          have hterm : (text ++ [c]).any Text.isBlank = true := by
            simp [hc]
          have hword := h.word hterm
          rw [Text.firstWord_append_blank hblank hc] at hword
          rw [holding_term r hne hterm]
          simp [step, hopens, hcloses, hc, hword, Part.pushAll_concat]
      | false =>
          have hword : (text ++ [c]).any Text.isBlank = false := by
            rw [List.any_append, hblank, List.any_cons, hc]
            rfl
          rw [holding_word r hne hword]
          simp [step, hopens, hcloses, hc, Part.pushAll_concat]

theorem outline_holding (hr : r.stage = .gap) {a b : List Char}
    (h : Flat (a ++ b)) (rest : List Char) :
    (r.holding a).outline l (b ++ rest) =
      (r.holding (a ++ b)).outline l rest := by
  induction b generalizing a with
  | nil => rw [List.append_nil, List.nil_append]
  | cons c b ih =>
      rw [List.append_cons] at h ⊢
      rw [List.cons_append, outline_of_go (step_holding hr h.of_append)]
      exact ih h

theorem outline_flat (hr : r.stage = .gap) (h : Flat text)
    (rest : List Char) :
    r.outline l (text ++ rest) = (r.holding text).outline l rest := by
  have hnil := outline_holding (l := l) (a := []) hr h rest
  rwa [holding_nil hr] at hnil

/-!
# Terms from flat texts
-/

theorem finish_holding (hne : text ≠ []) :
    (r.holding text).finish =
      ⟨[r.piece (.flat (Part.pushAll {} text).term)], none⟩ := by
  cases h : text.any Text.isBlank with
  | true =>
      rw [holding_term r hne h]
      rfl
  | false =>
      rw [holding_word r hne h]
      rfl

theorem outline_flat_end (hr : r.stage = .gap) (h : Flat text)
    (hne : text ≠ []) (htrim : Text.trimEnd text = text)
    (hend : Text.NoEnding text) :
    r.outline l text = ⟨[r.piece (.flat text)], none⟩ := by
  have hterm : (Part.pushAll {} text).term = text := by
    rw [Part.term_of_no_ending]
    · simpa using htrim
    · intro s
      simpa [htrim] using hend s
  have houtline := outline_flat (l := l) hr h []
  rwa [List.append_nil, outline_nil, finish_holding hne, hterm] at houtline

theorem step_stopWord {front : List Char} {s : Relation} :
    (r.holding (front ++ s.ending)).step l ' ' =
      .emit (r.piece (.flat (Text.trimEnd front))) { relation := s } := by
  have hne : front ++ s.ending ≠ [] := by simp [Relation.ending]
  have hblank : (front ++ s.ending).any Text.isBlank = true := by
    rw [List.any_append, Relation.ending, List.any_cons]
    simp [show Text.isBlank ' ' = true from rfl]
  have htext : ((Part.pushAll {} (front ++ s.ending)).push ' ').text =
      front ++ s.stopWord := by
    simp [Relation.stopWord]
  have hstop := Part.stopWord?_eq_some_iff.mpr
    (show s.stopWord <:+ _ from ⟨front, htext.symm⟩)
  have hterm := Part.term_of_stopWord htext
  rw [holding_term r hne hblank]
  simp only [step, hstop, hterm]
  simp [Part.opens, Part.closes, piece]

theorem outline_flat_stopWord (hr : r.stage = .gap) (h : Flat text)
    (hne : text ≠ [])
    (hword : Keyword.ofWord? (Text.firstWord text) = none)
    (htrim : Text.trimEnd text = text) (hend : Text.NoEnding text)
    (s : Relation) (rest : List Char) :
    r.outline l (text ++ s.stopWord ++ rest) =
      (Reading.outline l { relation := s } rest).cons
        (r.piece (.flat text)) := by
  have hsplit : text ++ s.stopWord ++ rest =
      (text ++ s.ending) ++ ' ' :: rest := by
    simp [Relation.stopWord]
  rw [hsplit, outline_flat hr (h.append_ending hne hword hend s),
    outline_of_emit step_stopWord, htrim]

end Step

end Reading

end SearchQuery
