import SearchQuery.Outline

/-!
# Lengths in an outline

The inside of a group is at least two characters shorter than the text that the
outline was made of, since the group has its two brackets there.  So there are
never more levels than characters, and a recursion over the levels can be run on
fuel.
-/

namespace SearchQuery

namespace Reading

def held (r : Reading) : Nat :=
  match r.stage with
  | .gap => 0
  | .word part => part.read.length
  | .term part => part.read.length
  | .group part _ => part.read.length

theorem held_of_openGroup {l : Level} {r next : Reading} {part : Part}
    {inner : Nat} (h : openGroup l r part inner = .go next) :
    next.held = part.read.length + 1 := by
  unfold openGroup at h
  split at h
  · cases h
    rfl
  · cases h

theorem closeGroup_ne_go (r next : Reading) (part : Part) :
    closeGroup r part ≠ .go next := by
  unfold closeGroup
  split <;> simp

theorem openGroup_ne_emit (l : Level) (r next : Reading) (part : Part)
    (inner : Nat) (p : Piece) : openGroup l r part inner ≠ .emit p next := by
  unfold openGroup
  split <;> simp

theorem length_of_closeGroup {r next : Reading} {part : Part} {p : Piece}
    {inner : List Char} (h : closeGroup r part = .emit p next)
    (hbody : p.body = .bracketed inner) :
    inner.length + 1 = part.read.length := by
  unfold closeGroup at h
  split at h
  next text htext =>
    cases h
    cases hbody
    have hlen := congrArg List.length htext
    simpa [Part.text] using hlen.symm
  next => cases h

theorem held_of_step {l : Level} {r next : Reading} {c : Char}
    (h : r.step l c = .go next) : next.held ≤ r.held + 1 := by
  rcases r with ⟨stage, negated, relation⟩
  cases stage with
  | gap =>
      simp only [step, refuseClose] at h
      split at h
      · cases h
        exact Nat.zero_le _
      split at h
      · rw [held_of_openGroup h]
        exact Nat.le_refl _
      split at h
      · cases h
      cases h
      exact Nat.le_refl _
  | word part =>
      simp only [step, refuseClose] at h
      split at h
      · split at h
        · rw [held_of_openGroup h]
          simp
        · rw [held_of_openGroup h]
          exact Nat.le_refl _
      split at h
      · cases h
      split at h
      · split at h
        next k hk =>
          cases h
          cases k <;> exact Nat.zero_le _
        next =>
          cases h
          exact Nat.le_refl _
      cases h
      exact Nat.le_refl _
  | term part =>
      simp only [step, refuseClose] at h
      split at h
      · rw [held_of_openGroup h]
        exact Nat.le_refl _
      split at h
      · cases h
      split at h
      · cases h
      cases h
      exact Nat.le_refl _
  | group part inner =>
      simp only [step] at h
      split at h
      · rw [held_of_openGroup h]
        exact Nat.le_refl _
      split at h
      · split at h
        · exact absurd h (closeGroup_ne_go _ _ _)
        · cases h
          exact Nat.le_refl _
      cases h
      exact Nat.le_refl _

theorem emit_of_step {l : Level} {r next : Reading} {c : Char} {p : Piece}
    (h : r.step l c = .emit p next) :
    (exists text, p.body = .flat text ∧ next.stage = .gap) ∨
      (exists part, r.stage = .group part 0 ∧ closeGroup r part = .emit p next) := by
  rcases r with ⟨stage, negated, relation⟩
  cases stage with
  | gap =>
      simp only [step, refuseClose] at h
      split at h
      · cases h
      split at h
      · exact absurd h (openGroup_ne_emit _ _ _ _ _ _)
      split at h <;> cases h
  | word part =>
      simp only [step, refuseClose] at h
      split at h
      · split at h <;> exact absurd h (openGroup_ne_emit _ _ _ _ _ _)
      split at h
      · cases h
      split at h
      · split at h <;> cases h
      cases h
  | term part =>
      simp only [step, refuseClose] at h
      split at h
      · exact absurd h (openGroup_ne_emit _ _ _ _ _ _)
      split at h
      · cases h
      split at h
      · cases h
        exact Or.inl ⟨_, rfl, rfl⟩
      cases h
  | group part inner =>
      simp only [step] at h
      split at h
      · exact absurd h (openGroup_ne_emit _ _ _ _ _ _)
      split at h
      · split at h
        · exact Or.inr ⟨part, rfl, h⟩
        · cases h
      cases h

theorem length_of_step {l : Level} {r next : Reading} {c : Char} {p : Piece}
    {inner : List Char} (h : r.step l c = .emit p next)
    (hbody : p.body = .bracketed inner) : inner.length + 1 = r.held := by
  rcases emit_of_step h with ⟨text, hflat, _⟩ | ⟨part, hstage, hclose⟩
  · rw [hflat] at hbody
    cases hbody
  · rw [held, hstage]
    exact length_of_closeGroup hclose hbody

theorem held_of_emit {l : Level} {r next : Reading} {c : Char} {p : Piece}
    (h : r.step l c = .emit p next) : next.held = 0 := by
  have hstage : next.stage = .gap := by
    rcases emit_of_step h with ⟨_, _, hgap⟩ | ⟨part, _, hclose⟩
    · exact hgap
    · unfold closeGroup at hclose
      split at hclose <;> cases hclose
      rfl
  rw [held, hstage]

theorem length_of_mem_run {l : Level} {p : Piece} {inner : List Char}
    (hbody : p.body = .bracketed inner) {text : List Char} {r : Reading}
    (h : p ∈ (r.run l text).1) : inner.length + 2 ≤ r.held + text.length := by
  induction text generalizing r with
  | nil => cases h
  | cons c rest ih =>
      rw [run] at h
      rw [List.length_cons]
      cases hstep : r.step l c with
      | go next =>
          rw [hstep] at h
          have hheld := held_of_step hstep
          have hrest := ih h
          omega
      | emit piece next =>
          rw [hstep] at h
          have hheld := held_of_emit hstep
          rcases List.mem_cons.mp h with rfl | hmem
          · have hlen := length_of_step hstep hbody
            omega
          · have hrest := ih hmem
            omega
      | stop fault =>
          rw [hstep] at h
          cases h

end Reading

namespace Outline

/-- The inside of a group is shorter than the text around it. -/
theorem length_inner_lt {l : Level} {p : Piece} {inner : List Char}
    (h : p ∈ (ofLevel l).pieces) (hbody : p.body = .bracketed inner) :
    inner.length < l.text.length := by
  have hrun : p ∈ (({} : Reading).run l l.text).1 := by
    unfold ofLevel at h
    split at h
    next pieces r heq =>
      rw [heq]
      rcases List.mem_append.mp h with hp | hp
      · exact hp
      · unfold Reading.finish at hp
        split at hp
        · cases hp
        · rw [List.mem_singleton.mp hp] at hbody
          cases hbody
        · rw [List.mem_singleton.mp hp] at hbody
          cases hbody
        · cases hp
    next pieces fault heq =>
      rw [heq]
      exact h
  have hlen := Reading.length_of_mem_run hbody hrun
  have hheld : ({} : Reading).held = 0 := rfl
  omega

end Outline

/-!
# Recursion over levels
-/

namespace Level

section Within

-- `within` is a function of a level that is run on fuel: `step` makes it from what
-- it is on the inside of every group of the level.
variable {α : Type} (within : Nat -> Level -> α)
  (step : Level -> (List Char -> α) -> α)
  (hstep : forall fuel l, within (fuel + 1) l =
    step l (fun inner => within fuel (l.inner inner)))
  (hcongr : forall l f g, (forall p, p ∈ (Outline.ofLevel l).pieces ->
    forall inner, p.body = .bracketed inner -> f inner = g inner) ->
      step l f = step l g)

include hstep hcongr

/-- Fuel beyond the characters of a level makes no difference. -/
theorem within_eq_of_lt {m n : Nat} {l : Level} (hm : l.text.length < m)
    (hn : l.text.length < n) : within m l = within n l := by
  induction m generalizing n l with
  | zero => exact absurd hm (Nat.not_lt_zero _)
  | succ m ih =>
      cases n with
      | zero => exact absurd hn (Nat.not_lt_zero _)
      | succ n =>
          rw [hstep, hstep]
          apply hcongr
          intro p hp inner hbody
          have hlt := Outline.length_inner_lt hp hbody
          apply ih
          · show inner.length < m
            omega
          · show inner.length < n
            omega

theorem within_length_eq (l : Level) :
    within (l.text.length + 1) l =
      step l (fun inner => within (inner.length + 1) (l.inner inner)) := by
  rw [hstep]
  apply hcongr
  intro p hp inner hbody
  have hlt := Outline.length_inner_lt hp hbody
  exact within_eq_of_lt within step hstep hcongr hlt (Nat.lt_succ_self _)

end Within

end Level

end SearchQuery
