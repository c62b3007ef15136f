import SearchQuery.Proofs.Limit
import SearchQuery.Proofs.Outline.Place

/-!
# Text behind a text

The outline of two texts together begins with the pieces that the first one
completes, and then the reading goes on where it stands.  Outside of groups it holds
back flat text there.  What comes next belongs to the same term as long as the text
that is held back stays flat, and blanks always do, unless they complete a reserved
word.
-/

namespace SearchQuery

namespace Text

theorem noEnding_concat_of_blank {b : Char} (h : isBlank b = true)
    (text : List Char) : NoEnding (text ++ [b]) := by
  intro r hparts
  rcases hparts with ⟨front, hfront⟩
  have hlast := trimEnd_append_ending front r
  rw [hfront, trimEnd_concat_of_blank h] at hlast
  have hlength := (trimEnd_isPrefix text).length_le
  rw [hlast, List.length_append] at hlength
  exact absurd hlength (Nat.not_succ_le_self _)

theorem NoStopWord.append_blanks {text blanks : List Char} (h : NoStopWord text)
    (hend : NoEnding text) (hblanks : forall c, c ∈ blanks -> isBlank c = true) :
    NoStopWord (text ++ blanks) := by
  induction blanks generalizing text with
  | nil => rwa [List.append_nil]
  | cons b blanks ih =>
      rw [List.append_cons]
      apply ih
      · exact noStopWord_concat_iff.mpr ⟨h, fun _ => hend⟩
      · exact noEnding_concat_of_blank (hblanks b List.mem_cons_self) text
      · intro c hc
        exact hblanks c (List.mem_cons_of_mem b hc)

theorem firstWord_append_blanks {text blanks : List Char}
    (h : forall c, c ∈ blanks -> isBlank c = true) :
    firstWord (text ++ blanks) = firstWord text := by
  cases blanks with
  | nil => rw [List.append_nil]
  | cons b blanks =>
      cases htext : text.any isBlank with
      | true => exact firstWord_append_of_blank htext _
      | false =>
          rw [firstWord_append_blank htext (h b List.mem_cons_self),
            firstWord_of_no_blank htext]

end Text

namespace Flat

variable {text : List Char}

theorem nil : Flat [] where
  head := by
    intro c hc
    cases hc
  brackets := rfl
  word := by
    intro hany
    cases hany
  stop := Text.noStopWord_nil

theorem ofWord?_firstWord (h : Flat text)
    (hword : Keyword.ofWord? text = none) :
    Keyword.ofWord? (Text.firstWord text) = none := by
  cases hany : text.any Text.isBlank with
  | true => exact h.word hany
  | false =>
      rw [Text.firstWord_of_no_blank hany]
      exact hword

theorem append_blanks (h : Flat text) (hne : text ≠ [])
    (hword : Keyword.ofWord? text = none) (hend : Text.NoEnding text)
    {blanks : List Char} (hblanks : forall c, c ∈ blanks -> Text.isBlank c = true) :
    Flat (text ++ blanks) := by
  apply h.append hne
  · apply Text.brackets_of_notMem
    · intro hmem
      cases hblanks _ hmem
    · intro hmem
      cases hblanks _ hmem
  · rw [Text.firstWord_append_blanks hblanks]
    exact h.ofWord?_firstWord hword
  · exact h.stop.append_blanks hend hblanks

end Flat

namespace Part

theorem Tracked.eq_pushAll {p : Part} (h : p.Tracked) :
    p = pushAll {} p.text := by
  have htext := text_pushAll {} p.text
  rw [text_empty, List.nil_append] at htext
  have hescaped := escaped_pushAll {} p.text
  rcases p with ⟨read, escaped⟩
  generalize hq : pushAll {} (Part.text ⟨read, escaped⟩) = q at *
  rcases q with ⟨read', escaped'⟩
  have hread : read' = read := List.reverse_injective htext
  rw [hread, show escaped' = escaped from hescaped.trans h.symm]

theorem term_congr {p q : Part} (h : Text.trimEnd p.text = Text.trimEnd q.text) :
    p.term = q.term := by
  rw [term, term, dropWhile_read, dropWhile_read, h]

end Part

def Outline.prepend (pieces : List Piece) (o : Outline) : Outline :=
  { o with pieces := pieces ++ o.pieces }

namespace Reading

variable {l : Level} {r last : Reading}

/-!
# Where a reading goes on
-/

/-- Behind a text the reading of more text goes on where it stands. -/
theorem outline_append (l : Level) (r : Reading) (a b : List Char) :
    r.outline l (a ++ b) =
      match r.run l a with
      | (pieces, .ok last) => (last.outline l b).prepend pieces
      | (pieces, .error fault) => ⟨pieces, some fault⟩ := by
  induction a generalizing r with
  | nil => rfl
  | cons c a ih =>
      rw [List.cons_append, outline_cons, run]
      cases r.step l c with
      | go next => exact ih next
      | emit p next =>
          simp only [ih next]
          rcases next.run l a with ⟨pieces, fault | last⟩ <;> rfl
      | stop fault => rfl

theorem coherent_of_run {text : List Char}
    (h : (Reading.run l {} text).2 = .ok last) : last.Coherent := by
  refine holds_of_run (I := fun _ => Coherent) ?_ [] text ?_ h
  · intro done r c m next htransition hm hr
    exact coherent_of_transition htransition hr hm
  · exact coherent_gap rfl

theorem stands_of_run {text : List Char}
    (h : (Reading.run l {} text).2 = .ok last) : last.Stands text := by
  refine holds_of_run (I := Stands) ?_ [] text stands_start h
  intro done r c m next htransition hm hr
  exact stands_of_transition htransition hr hm

/-!
# The text that a fault shows

The text of a level is shown by a fault and has no part in anything else.
-/

theorem step_withText (l : Level) (r : Reading) (text : List Char) (c : Char) :
    r.step { l with text := text } c = r.step l c ∨
      r.step { l with text := text } c = .stop ⟨.tooDeep l.limit, text⟩ ∧
        r.step l c = .stop ⟨.tooDeep l.limit, l.text⟩ := by
  have hadmits : Level.Admits { l with text := text } l := fun _ hn => hn
  have hadmitted : l.Admits { l with text := text } := fun _ hn => hn
  rcases step_eq_or_tooDeep (r := r) hadmitted c with heq | hdeep
  · exact Or.inl heq
  rcases step_eq_or_tooDeep (r := r) hadmits c with heq | hdeep'
  · exact Or.inl heq.symm
  · exact Or.inr ⟨hdeep, hdeep'⟩

theorem run_withText (l : Level) (r : Reading) (text rest : List Char) :
    (r.run { l with text := text } rest).1 = (r.run l rest).1 ∧
      (r.run { l with text := text } rest).2.mapError Fault.cause =
        (r.run l rest).2.mapError Fault.cause := by
  induction rest generalizing r with
  | nil => exact ⟨rfl, rfl⟩
  | cons c rest ih =>
      rw [run, run]
      rcases step_withText l r text c with heq | ⟨hdeep, hdeep'⟩
      · rw [heq]
        cases r.step l c with
        | go next => exact ih next
        | emit p next => exact ⟨congrArg (p :: ·) (ih next).1, (ih next).2⟩
        | stop fault => exact ⟨rfl, rfl⟩
      · rw [hdeep, hdeep']
        exact ⟨rfl, rfl⟩

/-!
# What follows flat text
-/

theorem Coherent.flat (h : r.Coherent) (hopen : r.openBrackets = 0) :
    Flat r.part.text := by
  have hholds := h.holds
  rcases r with ⟨_ | part | part | _, negated, relation⟩
  · exact Flat.nil
  · exact hholds.2.2
  · exact hholds.2
  · cases hopen

theorem Coherent.eq_holding (h : r.Coherent) (hopen : r.openBrackets = 0) :
    r = Reading.holding { r with stage := .gap } r.part.text := by
  have hholds := h.holds
  rcases r with ⟨_ | part | part | _, negated, relation⟩
  · exact (holding_nil rfl).symm
  · have hpart : part = Part.pushAll {} part.text := h.tracked.eq_pushAll
    show _ = Reading.holding _ part.text
    rw [holding_word _ hholds.1 hholds.2.1, ← hpart]
  · have hpart : part = Part.pushAll {} part.text := h.tracked.eq_pushAll
    show _ = Reading.holding _ part.text
    rw [holding_term _ (Part.ne_nil_of_holds_term hholds) hholds.1, ← hpart]
  · cases hopen

theorem Coherent.stage_eq_gap (h : r.Coherent) (hopen : r.openBrackets = 0)
    (hnil : r.part.text = []) : r.stage = .gap := by
  rw [h.eq_holding hopen, hnil, holding_nil rfl]

theorem Coherent.outline_append_flat (h : r.Coherent)
    (hopen : r.openBrackets = 0) {text : List Char}
    (hflat : Flat (r.part.text ++ text)) (rest : List Char) :
    r.outline l (text ++ rest) =
      (Reading.holding { r with stage := .gap } (r.part.text ++ text)).outline l
        rest := by
  rw [← outline_holding rfl hflat rest, ← h.eq_holding hopen]

theorem Coherent.outline_flat_end (h : r.Coherent) (hopen : r.openBrackets = 0)
    {text : List Char} (hflat : Flat (r.part.text ++ text))
    (hne : r.part.text ++ text ≠ []) :
    r.outline l text =
      ⟨[r.piece (.flat (Part.pushAll {} (r.part.text ++ text)).term)], none⟩ := by
  have hend := h.outline_append_flat (l := l) hopen hflat []
  rw [List.append_nil, outline_nil, finish_holding hne] at hend
  exact hend

/-!
# Blanks
-/

theorem outline_group_blanks {part : Part} {inner : Nat}
    (h : r.stage = .group part inner) {blanks : List Char}
    (hblanks : forall c, c ∈ blanks -> Text.isBlank c = true) :
    r.outline l blanks = r.finish := by
  induction blanks generalizing r part with
  | nil => rfl
  | cons b blanks ih =>
      have hb := hblanks b List.mem_cons_self
      have hopens : part.opens b = false := Part.opens_eq_false_of_blank hb
      have hcloses : part.closes b = false := Part.closes_eq_false_of_blank hb
      have hstep : r.step l b =
          .go { r with stage := .group (part.push b) inner } := by
        simp [step, h, hopens, hcloses]
      rw [outline_of_go hstep, ih rfl]
      · simp only [finish, h]
        rw [Part.text_push, Text.trimEnd_concat_of_blank hb]
      · intro c hc
        exact hblanks c (List.mem_cons_of_mem b hc)

/-- Blanks at the end of a text do not matter, unless they complete a reserved
word. -/
theorem Coherent.outline_blanks_end (h : r.Coherent)
    (hword : r.openBrackets = 0 -> Keyword.ofWord? r.part.text = none)
    (hend : r.openBrackets = 0 -> Text.NoEnding r.part.text)
    {blanks : List Char}
    (hblanks : forall c, c ∈ blanks -> Text.isBlank c = true) :
    r.outline l blanks = r.finish := by
  by_cases hopen : r.openBrackets = 0
  · by_cases hnil : r.part.text = []
    · have hgap := h.stage_eq_gap hopen hnil
      have hskip := outline_blanks (l := l) hgap hblanks []
      rwa [List.append_nil, outline_nil] at hskip
    · have hflat := (h.flat hopen).append_blanks hnil (hword hopen) (hend hopen)
        hblanks
      have hself : Flat (r.part.text ++ []) := by
        rw [List.append_nil]
        exact h.flat hopen
      have hfinish := h.outline_flat_end (l := l) hopen hself (by simp [hnil])
      rw [outline_nil] at hfinish
      rw [h.outline_flat_end hopen hflat (by simp [hnil]), hfinish]
      congr 4
      apply Part.term_congr
      simp [Text.trimEnd_append_blanks hblanks]
  · rcases r with ⟨_ | _ | _ | ⟨part, inner⟩, negated, relation⟩
    · exact absurd rfl hopen
    · exact absurd rfl hopen
    · exact absurd rfl hopen
    · exact outline_group_blanks rfl hblanks

end Reading

end SearchQuery
