import SearchQuery.Proofs.Outline.Transition

/-!
# Nesting in an outline

A reading counts the brackets that its text leaves open.  A bracketed text whose
own brackets nest within the limit becomes one piece, whatever is inside; and a
text whose outline has no fault has brackets that nest within the limit.
-/

namespace SearchQuery

namespace Reading

/-!
# Groups
-/

section Group

variable {l : Level} {r : Reading}

theorem openGroup_of_le {part : Part} {inner : Nat}
    (h : l.depth + (inner + 1) ≤ l.limit) :
    openGroup l r part inner =
      .go { r with stage := .group (part.push '(') inner } := by
  rw [openGroup, if_pos]
  simpa [Level.allows] using h

theorem outline_inside {limit n inner : Nat} {part : Part} {text : List Char}
    (h : Bracket.NestsWithin limit n (Text.brackets part.escaped text))
    (hl : l.depth + (inner + 1) + limit ≤ l.limit) (rest : List Char) :
    Reading.outline l { r with stage := .group part (inner + n) }
        (text ++ rest) =
      Reading.outline l { r with stage := .group (part.pushAll text) inner }
        rest := by
  -- The part and the number of groups that the text has opened change on the way.
  induction text generalizing part n with
  | nil =>
      have hn : n = 0 := h
      rw [hn]
      rfl
  | cons c text ih =>
      rw [Text.brackets] at h
      rw [List.cons_append]
      cases hb : Text.bracket? part.escaped c with
      | none =>
          rw [hb] at h
          have hstep : step l { r with stage := .group part (inner + n) } c =
              .go { r with stage := .group (part.push c) (inner + n) } := by
            simp [step, Part.opens_eq_false_of_none hb,
              Part.closes_eq_false_of_none hb]
          rw [outline_of_go hstep]
          exact ih h
      | some b =>
          rw [hb] at h
          cases b with
          | opening =>
              have hc := Text.eq_of_bracket?_opening hb
              have hle : l.depth + (inner + n + 1 + 1) ≤ l.limit := by
                have hn : n + 1 ≤ limit := h.1
                omega
              have hstep : step l { r with stage := .group part (inner + n) }
                  c = .go { r with
                    stage := .group (part.push c) (inner + (n + 1)) } := by
                rw [← Nat.add_assoc, hc]
                rw [hc, ← Part.opens_eq_true_iff] at hb
                simp [step, hb, openGroup_of_le hle]
              rw [outline_of_go hstep]
              exact ih h.2
          | closing =>
              cases n with
              | zero => exact h.elim
              | succ n =>
                  have hopens : part.opens c = false := by
                    rw [← Bool.not_eq_true, Part.opens_eq_true_iff, hb]
                    simp
                  have hcloses := Part.closes_eq_true_iff.mpr hb
                  have hstep : step l
                      { r with stage := .group part (inner + (n + 1)) } c =
                      .go { r with
                        stage := .group (part.push c) (inner + n) } := by
                    simp [step, hopens, hcloses]
                  rw [outline_of_go hstep]
                  exact ih h

theorem outline_group (hr : r.stage = .gap) {limit : Nat} {inner : List Char}
    (h : Bracket.NestsWithin limit 0 (Text.brackets false inner))
    (hl : l.depth + 1 + limit ≤ l.limit)
    (hescaped : Text.escapedAfter false inner = false) (rest : List Char) :
    r.outline l ('(' :: inner ++ ')' :: rest) =
      (Reading.outline l { r with stage := .gap, negated := false } rest).cons
        (r.piece (.bracketed inner)) := by
  have hle : l.depth + (0 + 1) ≤ l.limit := by omega
  have hopen : r.step l '(' =
      .go { r with stage := .group (Part.push {} '(') (0 + 0) } := by
    have hblank : Text.isBlank '(' = false := rfl
    have hopens : Part.opens {} '(' = true := rfl
    simp [step, hr, hblank, hopens, openGroup_of_le hle]
  have hnests : Bracket.NestsWithin limit 0
      (Text.brackets (Part.push {} '(').escaped inner) := h
  have hinside : Reading.outline l
      { r with stage := .group (Part.push {} '(') (0 + 0) }
        (inner ++ ')' :: rest) =
      Reading.outline l
        { r with stage := .group ((Part.push {} '(').pushAll inner) 0 }
          (')' :: rest) :=
    outline_inside hnests (by omega) (')' :: rest)
  have hclose : step l
      { r with stage := .group ((Part.push {} '(').pushAll inner) 0 } ')' =
      .emit (r.piece (.bracketed inner))
        { r with stage := .gap, negated := false } := by
    have hflag : ((Part.push {} '(').pushAll inner).escaped = false := by
      rw [Part.escaped_pushAll]
      exact hescaped
    have hopens : ((Part.push {} '(').pushAll inner).opens ')' = false := by
      simp [Part.opens]
    have hcloses : ((Part.push {} '(').pushAll inner).closes ')' = true := by
      simp only [Part.closes, hflag]
      rfl
    simp [step, hopens, hcloses, closeGroup, piece]
  rw [List.cons_append, outline_of_go hopen, hinside, outline_of_emit hclose]

end Group

/-!
# Brackets of a text without faults
-/

def NestsOn (l : Level) (r : Reading) (text : List Char) : Prop :=
  Bracket.NestsWithin (l.limit - l.depth) r.openBrackets
    (Text.brackets r.part.escaped text)

section Step

variable {l : Level} {r : Reading} {c : Char} {rest : List Char}

theorem openBrackets_of_grows {stage : Stage} (h : Grows c r.stage stage) :
    openBrackets { r with stage := stage } = r.openBrackets ∧
      part { r with stage := stage } = r.part.push c := by
  rcases r with ⟨stage₀, negated, relation⟩
  cases h <;> exact ⟨rfl, rfl⟩

theorem escaped_push_bracket (p : Part) :
    (p.push '(').escaped = false ∧ (p.push ')').escaped = false :=
  ⟨Text.escapesNext_of_ne (by decide) _, Text.escapesNext_of_ne (by decide) _⟩

/-- What a character does to the brackets that a reading has open: nothing, or it
is one that counts and opens or closes one. -/
inductive Turns (l : Level) (r : Reading) (c : Char) (next : Reading) : Prop where
  | none : next.openBrackets = r.openBrackets ->
      (forall rest, Text.brackets r.part.escaped (c :: rest) =
        Text.brackets next.part.escaped rest) -> Turns l r c next
  | opening : next.openBrackets = r.openBrackets + 1 ->
      l.allows (r.openBrackets + 1) = true ->
      (forall rest, Text.brackets r.part.escaped (c :: rest) =
        .opening :: Text.brackets next.part.escaped rest) -> Turns l r c next
  | closing : r.openBrackets = next.openBrackets + 1 ->
      (forall rest, Text.brackets r.part.escaped (c :: rest) =
        .closing :: Text.brackets next.part.escaped rest) -> Turns l r c next

theorem turns_of_transition {m : Move} (h : Transition l r c m)
    {next : Reading} (hm : m.next? = some next) : Turns l r c next := by
  cases h with
  | skip hs hblank =>
      cases hm
      apply Turns.none rfl
      intro rest
      rw [Part.brackets_cons_of_blank hblank, part, hs]
  | @keyword p k hs hblank hk =>
      cases hm
      apply Turns.none
      · simp only [openBrackets, hs]
        cases k <;> rfl
      · intro rest
        rw [Part.brackets_cons_of_blank hblank]
        cases k <;> rfl
  | grow hopens hcloses hgrows =>
      cases hm
      rcases openBrackets_of_grows hgrows with ⟨hopen, hpart⟩
      apply Turns.none hopen
      intro rest
      rw [← Bool.not_eq_true] at hopens hcloses
      rw [hpart, Part.brackets_cons_of_neither hopens hcloses]
  | stopWord hs hstop =>
      cases hm
      apply Turns.none
      · simp only [openBrackets, hs]
      · intro rest
        rw [Part.stopWord?_eq_some_iff, Part.text_push,
          Text.stopWord_suffix_concat_iff] at hstop
        rw [hstop.1, Part.brackets_cons_of_blank rfl]
        rfl
  | opening hopens hallows =>
      cases hm
      apply Turns.opening rfl hallows
      intro rest
      rw [Part.brackets_cons_of_opens hopens, part,
        (escaped_push_bracket r.part).1]
  | openingBehind hs hopens hk hallows =>
      cases hm
      have hopen : r.openBrackets = 0 := by simp only [openBrackets, hs]
      rw [← Nat.zero_add 1, ← hopen] at hallows
      refine Turns.opening ?_ hallows ?_
      · rw [hopen]
        rfl
      · intro rest
        simp only [part, hs]
        exact Part.brackets_cons_of_opens hopens rest
  | tooDeep => cases hm
  | @closing p inner hs hcloses =>
      cases hm
      have hc := Text.eq_of_bracket?_closing
        (Part.closes_eq_true_iff.mp hcloses)
      apply Turns.closing
      · simp only [openBrackets, hs]
      · intro rest
        simp only [part, hs]
        rw [Part.brackets_cons_of_closes hcloses, hc,
          (escaped_push_bracket p).2]
  | groupEnd hs hcloses htext =>
      cases hm
      apply Turns.closing
      · simp only [openBrackets, hs]
      · intro rest
        simp only [part, hs]
        exact Part.brackets_cons_of_closes hcloses rest
  | stray => cases hm
  | unmatched => cases hm

theorem nestsOn_cons_iff {m : Move} (h : Transition l r c m) {next : Reading}
    (hm : m.next? = some next) :
    NestsOn l r (c :: rest) <-> NestsOn l next rest := by
  unfold NestsOn
  cases turns_of_transition h hm with
  | none hopen hbrackets => rw [hbrackets, ← hopen]
  | opening hopen hallows hbrackets =>
      have hle : l.depth + (r.openBrackets + 1) ≤ l.limit := by
        simpa [Level.allows] using hallows
      rw [hbrackets, hopen]
      exact and_iff_right (by omega)
  | closing hopen hbrackets =>
      rw [hbrackets, hopen]
      exact Iff.rfl

/-- If the outline of a text has no fault, then the brackets of the text nest
within the limit. -/
theorem nestsOn_of_outline {text : List Char}
    (h : (r.outline l text).fault? = none) : NestsOn l r text := by
  induction text generalizing r with
  | nil =>
      rw [outline_nil, finish] at h
      unfold NestsOn openBrackets
      split at h
      next hs =>
        rw [hs]
        exact rfl
      next hs =>
        rw [hs]
        exact rfl
      next hs =>
        rw [hs]
        exact rfl
      next => cases h
  | cons c rest ih =>
      rcases fault?_outline_cons h with ⟨next, hm, hnext⟩
      exact (nestsOn_cons_iff (transition_step l r c) hm).mpr (ih hnext)

end Step

end Reading

theorem Outline.nestsWithin_of_ofLevel {l : Level}
    (h : (ofLevel l).fault? = none) :
    Bracket.NestsWithin (l.limit - l.depth) 0 (Text.brackets false l.text) :=
  Reading.nestsOn_of_outline (r := {}) h

end SearchQuery
