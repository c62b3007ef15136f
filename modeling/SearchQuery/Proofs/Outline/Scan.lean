import SearchQuery.Parse
import SearchQuery.Proofs.Outline.Part

/-!
# Scanning a text

The outline that a reading still makes of a text obeys one equation for each
character.  From these follow the laws of whole parts: a plain text is held back
as one part, a bracketed text whose brackets nest becomes one piece, and the word
of a relation in the gap changes only the relation in force.
-/

namespace SearchQuery

namespace Outline

def cons (p : Piece) (o : Outline) : Outline :=
  { o with pieces := p :: o.pieces }

end Outline

namespace Reading

/-- What a reading makes of a text up to its end. -/
def outline (l : Level) (r : Reading) (text : List Char) : Outline :=
  match r.run l text with
  | (pieces, .ok last) => ⟨pieces ++ last.finish.pieces, last.finish.fault?⟩
  | (pieces, .error fault) => ⟨pieces, some fault⟩

@[simp] theorem outline_nil (l : Level) (r : Reading) :
    r.outline l [] = r.finish := rfl

theorem outline_cons (l : Level) (r : Reading) (c : Char) (rest : List Char) :
    r.outline l (c :: rest) =
      match r.step l c with
      | .go next => next.outline l rest
      | .emit p next => (next.outline l rest).cons p
      | .stop fault => ⟨[], some fault⟩ := by
  unfold outline
  rw [run]
  cases r.step l c with
  | go next => rfl
  | emit p next =>
      rcases hrun : next.run l rest with ⟨pieces, fault | last⟩
      · simp [hrun, Outline.cons]
      · simp [hrun, Outline.cons]
  | stop fault => rfl

theorem outline_of_go {l : Level} {r next : Reading} {c : Char}
    (h : r.step l c = .go next) (rest : List Char) :
    r.outline l (c :: rest) = next.outline l rest := by
  rw [outline_cons, h]

theorem outline_of_emit {l : Level} {r next : Reading} {c : Char} {p : Piece}
    (h : r.step l c = .emit p next) (rest : List Char) :
    r.outline l (c :: rest) = (next.outline l rest).cons p := by
  rw [outline_cons, h]

end Reading

def Move.next? : Move -> Option Reading
  | go next => some next
  | emit _ next => some next
  | stop _ => none

namespace Reading

theorem fault?_outline_cons {l : Level} {r : Reading} {c : Char}
    {rest : List Char} (h : (r.outline l (c :: rest)).fault? = none) :
    exists next, (r.step l c).next? = some next ∧
      (next.outline l rest).fault? = none := by
  rw [outline_cons] at h
  cases hstep : r.step l c with
  | go next =>
      rw [hstep] at h
      exact ⟨next, rfl, h⟩
  | emit p next =>
      rw [hstep] at h
      exact ⟨next, rfl, h⟩
  | stop fault =>
      rw [hstep] at h
      cases h

end Reading

theorem Outline.ofLevel_eq (l : Level) :
    ofLevel l = ({} : Reading).outline l l.text := rfl

namespace Reading

/-!
# Gaps
-/

theorem step_gap_of_blank {l : Level} {r : Reading} {c : Char}
    (hr : r.stage = .gap) (hc : Text.isBlank c = true) :
    r.step l c = .go r := by
  simp [step, hr, hc]

theorem outline_blanks {l : Level} {r : Reading} {blanks : List Char}
    (hr : r.stage = .gap) (h : forall c, c ∈ blanks -> Text.isBlank c = true)
    (rest : List Char) : r.outline l (blanks ++ rest) = r.outline l rest := by
  induction blanks with
  | nil => rfl
  | cons c blanks ih =>
      have hc := h c List.mem_cons_self
      rw [List.cons_append, outline_of_go (step_gap_of_blank hr hc)]
      apply ih
      intro d hd
      exact h d (List.mem_cons_of_mem c hd)

theorem outline_keyword {l : Level} {r : Reading} {b : Char}
    (hr : r.stage = .gap) (hb : Text.isBlank b = true) (k : Keyword)
    (rest : List Char) :
    r.outline l (k.word.toList ++ b :: rest) = (r.heed k).outline l rest := by
  have hne : b ≠ '(' := Text.ne_of_isBlank hb rfl
  have hne' : b ≠ ')' := Text.ne_of_isBlank hb rfl
  rcases r with ⟨stage, negated, relation⟩
  cases hr
  rcases k with _ | ⟨_ | _⟩ <;>
    simp [Keyword.word, Relation.keyword, outline_cons, step, Part.opens,
      Part.closes, Part.push, Part.text, hb, hne, hne', Keyword.ofWord?,
      show Text.isBlank 'N' = false from rfl,
      show Text.isBlank 'O' = false from rfl,
      show Text.isBlank 'T' = false from rfl,
      show Text.isBlank 'A' = false from rfl,
      show Text.isBlank 'D' = false from rfl,
      show Text.isBlank 'R' = false from rfl, Text.escapesNext, heed]

end Reading

end SearchQuery
