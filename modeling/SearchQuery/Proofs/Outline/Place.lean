import SearchQuery.Proofs.Outline.Nesting
import SearchQuery.Proofs.Outline.Coherent

/-!
# The place of a part

What a reading holds back is the end of the text that it has read.  So every piece
of an outline stands in the text as it is, in one part, and so does what a fault of
the outline names.  Outside of groups the part begins where a word of its own can
begin: at the start of the text, behind a blank or behind a bracket.
-/

namespace SearchQuery

namespace Text

/-- A word of its own can begin behind a text: the text is empty, or it ends in a
blank or with a bracket. -/
def EndsApart (text : List Char) : Prop :=
  forall c, text.getLast? = some c -> isBlank c = true ∨ c = '(' ∨ c = ')'

theorem endsApart_nil : EndsApart [] := by
  intro c hc
  cases hc

theorem endsApart_concat {c : Char}
    (h : isBlank c = true ∨ c = '(' ∨ c = ')') (text : List Char) :
    EndsApart (text ++ [c]) := by
  intro d hd
  rw [List.getLast?_concat] at hd
  cases hd
  exact h

theorem trimEnd_ne_nil_of_mem {text : List Char} {c : Char} (hc : c ∈ text)
    (hblank : isBlank c = false) : trimEnd text ≠ [] := by
  intro hnil
  rcases exists_blanks text with ⟨blanks, htext, hblanks⟩
  rw [hnil, List.nil_append] at htext
  rw [htext] at hc
  rw [hblanks c hc] at hblank
  cases hblank

end Text

def Body.inside : Body -> List Char
  | .flat text => text
  | .bracketed inner => inner

structure Fault.PointsInto (f : Fault) (text : List Char) : Prop where
  ne_nil : f.fragment ≠ []
  isInfix : f.fragment <:+: text
  cause_ne : f.cause ≠ .emptyTerm

namespace Part

theorem term_ne_nil {p : Part} (hne : p.text ≠ [])
    (hhead : forall c, p.text.head? = some c -> Text.isBlank c = false) :
    p.term ≠ [] := by
  have htrim : forall text, text ≠ [] -> text <+: p.text ->
      Text.trimEnd text ≠ [] := by
    intro text htext hprefix
    cases text with
    | nil => exact absurd rfl htext
    | cons c rest =>
        apply Text.trimEnd_ne_nil_of_mem List.mem_cons_self
        rcases hprefix with ⟨tail, hp⟩
        apply hhead
        rw [← hp]
        rfl
  by_cases h : Text.NoEnding (Text.trimEnd p.text)
  · rw [term_of_no_ending h]
    exact htrim p.text hne List.prefix_rfl
  · rcases Classical.not_forall.mp h with ⟨r, hr⟩
    rcases Classical.not_not.mp hr with ⟨front, hfront⟩
    have hprefix : front ++ r.ending <+: p.text := by
      rw [hfront]
      exact Text.trimEnd_isPrefix p.text
    rw [term_of_ending hfront.symm]
    refine htrim front ?_ ((List.prefix_append front _).trans hprefix)
    -- The word of a relation stands behind a space, and a part begins with none.
    intro hnil
    rcases hprefix with ⟨tail, hp⟩
    have hspace := hhead ' ' (by rw [← hp, hnil]; rfl)
    cases hspace

end Part

namespace Reading

/-- The place of a reading behind a text: what it holds back is the end of that
text. -/
structure Stands (done : List Char) (r : Reading) : Prop where
  split : exists front, done = front ++ r.part.text ∧
    (r.openBrackets = 0 -> Text.EndsApart front)
  bracket : r.openBrackets ≠ 0 -> '(' ∈ r.part.text

theorem stands_start : Stands [] {} where
  split := ⟨[], rfl, fun _ => Text.endsApart_nil⟩
  bracket := fun h => absurd rfl h

section Step

variable {l : Level} {r : Reading} {c : Char} {done rest : List Char}

theorem stands_gap {next : Reading} (hstage : next.stage = .gap)
    (hc : Text.isBlank c = true ∨ c = '(' ∨ c = ')') :
    Stands (done ++ [c]) next where
  split := by
    refine ⟨done ++ [c], ?_, fun _ => Text.endsApart_concat hc done⟩
    rw [part, hstage]
    exact (List.append_nil _).symm
  bracket := by
    intro h
    rw [openBrackets, hstage] at h
    exact absurd rfl h

theorem Stands.push {next : Reading} (h : r.Stands done)
    (hpart : next.part = r.part.push c)
    (hopen : next.openBrackets = 0 -> r.openBrackets = 0)
    (hbracket : next.openBrackets ≠ 0 -> r.openBrackets ≠ 0 ∨ c = '(') :
    next.Stands (done ++ [c]) where
  split := by
    rcases h.split with ⟨front, rfl, hfront⟩
    refine ⟨front, ?_, fun hnext => hfront (hopen hnext)⟩
    rw [hpart, Part.text_push, List.append_assoc]
  bracket := by
    intro hnext
    rw [hpart, Part.text_push, List.mem_append, List.mem_singleton]
    rcases hbracket hnext with hr | hc
    · exact Or.inl (h.bracket hr)
    · exact Or.inr hc.symm

theorem stands_of_transition {m : Move} (h : Transition l r c m)
    (hr : r.Stands done) {next : Reading} (hm : m.next? = some next) :
    next.Stands (done ++ [c]) := by
  cases h with
  | skip hs hblank =>
      cases hm
      exact stands_gap hs (Or.inl hblank)
  | @keyword p k hs hblank =>
      cases hm
      cases k <;> exact stands_gap rfl (Or.inl hblank)
  | grow hopens hcloses hgrows =>
      cases hm
      rcases openBrackets_of_grows hgrows with ⟨hopen, hpart⟩
      apply hr.push hpart
      · intro hnext
        rw [← hopen]
        exact hnext
      · intro hnext
        rw [hopen] at hnext
        exact Or.inl hnext
  | stopWord hs hstop =>
      cases hm
      rw [Part.stopWord?_eq_some_iff, Part.text_push,
        Text.stopWord_suffix_concat_iff] at hstop
      rw [hstop.1]
      exact stands_gap rfl (Or.inl rfl)
  | opening hopens =>
      cases hm
      have hc := Text.eq_of_bracket?_opening (Part.opens_eq_true_iff.mp hopens)
      rw [hc]
      apply hr.push rfl
      · intro hnext
        cases hnext
      · intro _
        exact Or.inr rfl
  | openingBehind hs hopens =>
      cases hm
      have hc := Text.eq_of_bracket?_opening (Part.opens_eq_true_iff.mp hopens)
      rw [hc]
      refine ⟨⟨done, rfl, ?_⟩, fun _ => List.mem_singleton_self _⟩
      intro hnext
      cases hnext
  | tooDeep => cases hm
  | closing hs hcloses =>
      cases hm
      apply hr.push
      · simp only [part, hs]
      · intro hnext
        cases hnext
      · intro _
        refine Or.inl ?_
        simp only [openBrackets, hs]
        exact Nat.succ_ne_zero _
  | groupEnd hs hcloses =>
      cases hm
      have hc := Text.eq_of_bracket?_closing
        (Part.closes_eq_true_iff.mp hcloses)
      exact stands_gap rfl (Or.inr (Or.inr hc))
  | stray => cases hm
  | unmatched => cases hm

/-!
# Pieces and faults of one step
-/

theorem Stands.isInfix (h : r.Stands done) (c : Char) (rest : List Char) :
    r.part.text ++ [c] <:+: done ++ c :: rest := by
  rcases h.split with ⟨front, rfl, _⟩
  refine ⟨front, rest, ?_⟩
  simp only [List.append_assoc, List.cons_append, List.nil_append]

theorem isInfix_of_emit {p : Piece} {next : Reading}
    (h : Transition l r c (.emit p next)) (hr : r.Stands done)
    (rest : List Char) : p.body.inside <:+: done ++ c :: rest := by
  have hpart := hr.isInfix c rest
  generalize hm : Move.emit p next = m at h
  cases h with
  | @stopWord part s hs hstop =>
      cases hm
      simp only [Reading.part, hs, ← Part.text_push] at hpart
      exact (part.push c).term_isPrefix.isInfix.trans hpart
  | @groupEnd part inner hs hcloses htext =>
      cases hm
      simp only [Reading.part, hs, htext] at hpart
      refine List.IsInfix.trans ?_ hpart
      exact ⟨['('], [c], rfl⟩
  | _ => cases hm

theorem isInfix_of_finish {p : Piece} (hp : p ∈ r.finish.pieces)
    (hr : r.Stands done) : p.body.inside <:+: done := by
  rcases hr.split with ⟨front, rfl, _⟩
  have hterm : forall part : Part, r.part = part ->
      part.term <:+: front ++ r.part.text := by
    intro part hpart
    rw [hpart]
    exact part.term_isPrefix.isInfix.trans (List.suffix_append _ _).isInfix
  rcases r with ⟨_ | part | part | _, negated, relation⟩
  · cases hp
  · rw [List.mem_singleton.mp hp]
    exact hterm part rfl
  · rw [List.mem_singleton.mp hp]
    exact hterm part rfl
  · cases hp

theorem pointsInto_of_stop {fault : Fault} (h : Transition l r c (.stop fault))
    (hr : r.Stands done) (hl : l.text = done ++ c :: rest) :
    fault.PointsInto l.text := by
  have hpart := hr.isInfix c rest
  rw [← hl] at hpart
  generalize hm : Move.stop fault = m at h
  cases h with
  | tooDeep =>
      cases hm
      refine ⟨?_, List.infix_rfl, by simp⟩
      rw [hl]
      simp
  | @stray p hs hcloses =>
      cases hm
      have hc := Text.eq_of_bracket?_closing
        (Part.closes_eq_true_iff.mp hcloses)
      simp only [Reading.part, hs, hc] at hpart
      exact ⟨by simp, hpart, by simp⟩
  | unmatched _ hcloses =>
      cases hm
      have hc := Text.eq_of_bracket?_closing
        (Part.closes_eq_true_iff.mp hcloses)
      rw [hc, ← Part.text_push] at hpart
      exact ⟨by simp, hpart, by simp⟩
  | _ => cases hm

theorem pointsInto_of_finish {fault : Fault}
    (h : r.finish.fault? = some fault) (hr : r.Stands done) :
    fault.PointsInto done := by
  rcases r with ⟨_ | _ | _ | ⟨part, inner⟩, negated, relation⟩
  · cases h
  · cases h
  · cases h
  · cases h
    have hbracket : '(' ∈ part.text := hr.bracket (Nat.succ_ne_zero inner)
    rcases hr.split with ⟨front, rfl, _⟩
    refine ⟨Text.trimEnd_ne_nil_of_mem hbracket rfl, ?_, by simp⟩
    exact (Text.trimEnd_isPrefix part.text).isInfix.trans
      (List.suffix_append front _).isInfix

/-!
# Pieces and faults of an outline
-/

/-- Pieces stand in the text of the level, and a fault is found in it. -/
theorem placed_outline {text : List Char} (hr : r.Stands done)
    (hl : l.text = done ++ text) :
    (forall p, p ∈ (r.outline l text).pieces -> p.body.inside <:+: l.text) ∧
      forall fault, (r.outline l text).fault? = some fault ->
        fault.PointsInto l.text := by
  induction text generalizing r done with
  | nil =>
      rw [hl, List.append_nil]
      constructor
      · intro p hp
        exact isInfix_of_finish hp hr
      · intro fault h
        exact pointsInto_of_finish h hr
  | cons c rest ih =>
      have htransition := transition_step l r c
      have hrest : l.text = (done ++ [c]) ++ rest := by
        rw [hl, List.append_cons]
      rw [outline_cons]
      cases hstep : r.step l c with
      | go next =>
          rw [hstep] at htransition
          exact ih (stands_of_transition htransition hr rfl) hrest
      | emit piece next =>
          rw [hstep] at htransition
          rcases ih (stands_of_transition htransition hr rfl) hrest with
            ⟨hpieces, hfault⟩
          refine ⟨?_, hfault⟩
          intro p hp
          rcases List.mem_cons.mp hp with rfl | hp
          · rw [hl]
            exact isInfix_of_emit htransition hr rest
          · exact hpieces p hp
      | stop fault =>
          rw [hstep] at htransition
          constructor
          · intro p hp
            cases hp
          · intro fault' h
            cases h
            exact pointsInto_of_stop htransition hr hl

theorem ne_nil_of_emit {p : Piece} {next : Reading} {text : List Char}
    (h : Transition l r c (.emit p next)) (hr : r.Coherent)
    (hbody : p.body = .flat text) : text ≠ [] := by
  generalize hm : Move.emit p next = m at h
  cases h with
  | @stopWord part s hs hstop =>
      cases hm
      cases hbody
      have hholds := hr.holds
      rw [hs] at hholds
      apply Part.term_ne_nil
      · simp
      · intro d hd
        exact Part.head_push hholds.2 (Part.ne_nil_of_holds_term hholds) hd
  | groupEnd =>
      cases hm
      cases hbody
  | _ => cases hm

theorem ne_nil_of_finish {p : Piece} {text : List Char}
    (hp : p ∈ r.finish.pieces) (hr : r.Coherent)
    (hbody : p.body = .flat text) : text ≠ [] := by
  have hholds := hr.holds
  rcases r with ⟨_ | part | part | _, negated, relation⟩
  · cases hp
  · rw [List.mem_singleton.mp hp] at hbody
    cases hbody
    exact Part.term_ne_nil hholds.1 hholds.2.2.head
  · rw [List.mem_singleton.mp hp] at hbody
    cases hbody
    exact Part.term_ne_nil (Part.ne_nil_of_holds_term hholds)
      hholds.2.head
  · cases hp

end Step

end Reading

namespace Outline

variable {l : Level}

theorem isInfix_of_mem_ofLevel {p : Piece} (hp : p ∈ (ofLevel l).pieces) :
    p.body.inside <:+: l.text :=
  (Reading.placed_outline Reading.stands_start rfl).1 p hp

theorem pointsInto_of_ofLevel {fault : Fault}
    (h : (ofLevel l).fault? = some fault) : fault.PointsInto l.text :=
  (Reading.placed_outline Reading.stands_start rfl).2 fault h

theorem ne_nil_of_mem_ofLevel {p : Piece} (hp : p ∈ (ofLevel l).pieces)
    {text : List Char} (hbody : p.body = .flat text) : text ≠ [] := by
  have hpiece : forall text, p.body = .flat text -> text ≠ [] := by
    apply Reading.forall_of_mem_outline (I := Reading.Coherent) _ _ _
      (Reading.coherent_gap rfl) hp
    · intro r c m next h hm hr
      exact Reading.coherent_of_transition h hr hm
    · intro r c p next h hr text hbody
      exact Reading.ne_nil_of_emit h hr hbody
    · intro r p hp hr text hbody
      exact Reading.ne_nil_of_finish hp hr hbody
  exact hpiece text hbody

end Outline

end SearchQuery
