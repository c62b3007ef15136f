import SearchQuery.Proofs.Lockstep

/-!
# Limits on nesting

The limit decides whether a text is too deep and nothing else.  Where there is more
room a reading does the same with each character, up to a bracket that opens one
group too many for the smaller limit; and such a bracket ends the reading there.
-/

namespace SearchQuery

namespace Level

/-- Whether a level has room for every group that another one has room for. -/
def Admits (l' l : Level) : Prop :=
  forall n, l.allows n = true -> l'.allows n = true

theorem Admits.inner {l l' : Level} (h : l'.Admits l) (text : List Char) :
    (l'.inner text).Admits (l.inner text) := by
  intro n hn
  have hshift : forall k : Level,
      (k.inner text).allows n = k.allows (n + 1) := by
    intro k
    simp only [allows, Level.inner, Nat.add_assoc, Nat.add_comm 1 n]
  rw [hshift] at hn ⊢
  exact h (n + 1) hn

end Level

namespace Reading

variable {l l' : Level} {r : Reading}

theorem openGroup_eq_or_tooDeep (h : l'.Admits l) (part : Part) (inner : Nat) :
    openGroup l r part inner = openGroup l' r part inner ∨
      openGroup l r part inner = .stop ⟨.tooDeep l.limit, l.text⟩ := by
  unfold openGroup
  cases hallows : l.allows (inner + 1) with
  | true =>
      rw [h _ hallows]
      exact Or.inl rfl
  | false => exact Or.inr rfl

theorem step_eq_or_tooDeep (h : l'.Admits l) (c : Char) :
    r.step l c = r.step l' c ∨
      r.step l c = .stop ⟨.tooDeep l.limit, l.text⟩ := by
  rcases r with ⟨stage, negated, relation⟩
  cases stage with
  | gap =>
      simp only [step]
      split
      · exact Or.inl rfl
      split
      · exact openGroup_eq_or_tooDeep h _ 0
      · exact Or.inl rfl
  | word part =>
      simp only [step]
      split
      · split
        · exact openGroup_eq_or_tooDeep h _ 0
        · exact openGroup_eq_or_tooDeep h part 0
      · exact Or.inl rfl
  | term part =>
      simp only [step]
      split
      · exact openGroup_eq_or_tooDeep h part 0
      · exact Or.inl rfl
  | group part inner =>
      simp only [step]
      split
      · exact openGroup_eq_or_tooDeep h part (inner + 1)
      · exact Or.inl rfl

theorem inStep_outline (h : l'.Admits l) (text : List Char) :
    (r.outline l text).InStep (Fault.IsOf .tooDeeplyNested)
      (r.outline l' text) := by
  induction text generalizing r with
  | nil => exact Outline.InStep.same
  | cons c rest ih =>
      rw [outline_cons, outline_cons]
      rcases step_eq_or_tooDeep (r := r) h c with heq | hdeep
      · rw [heq]
        cases r.step l' c with
        | go next => exact ih
        | emit p next => exact ih.cons p
        | stop fault => exact Outline.InStep.same
      · rw [hdeep]
        have hstop : Fault.IsOf .tooDeeplyNested
            { cause := .tooDeep l.limit, fragment := l.text } := rfl
        exact Outline.InStep.of_nil hstop _

end Reading

namespace Level

variable {l l' : Level}

theorem read_eq_or_tooDeep (settings : Settings) (h : l'.Admits l)
    (htext : l'.text = l.text) :
    l.read settings = l'.read settings ∨
      exists fault, l.read settings = .error fault ∧
        fault.IsOf .tooDeeplyNested := by
  have hterm : Fragment.InStep (Fault.IsOf .tooDeeplyNested) (fun _ => Eq)
      settings settings := by
    apply Fragment.inStep_of_eq_or
    intro text negated
    exact Or.inl rfl
  apply read_eq_or_stopped
  apply inStep_trace hterm (fun _ _ _ => Element.group_eq_of_alike)
    (S := fun l l' => l'.Admits l ∧ l'.text = l.text) _ _ ⟨h, htext⟩
  · intro l l' hl
    rw [Outline.ofLevel_eq, Outline.ofLevel_eq, hl.2]
    exact Reading.inStep_outline hl.1 l.text
  · intro l l' inner hl
    exact ⟨hl.1.inner inner, rfl⟩

theorem read_eq_ok_of_admits {settings : Settings} (h : l'.Admits l)
    (htext : l'.text = l.text) {q : Query} (hread : l.read settings = .ok q) :
    l'.read settings = .ok q := by
  rcases read_eq_or_tooDeep settings h htext with
    heq | ⟨fault, hfault, _⟩
  · exact heq.symm.trans hread
  · rw [hread] at hfault
    cases hfault

end Level

namespace Query

/-- A larger limit changes the result of a parse only where the smaller one makes
the text too deep. -/
theorem parse_eq_or_tooDeep (settings : Settings) {limit limit' : Nat}
    (h : limit ≤ limit') (text : String) :
    parse { settings with maxDepth := limit } text =
        parse { settings with maxDepth := limit' } text ∨
      exists error,
        parse { settings with maxDepth := limit } text = .error error ∧
          error.kind = .tooDeeplyNested := by
  apply parse_eq_or_kind
  have hadmits : Level.Admits { text := text.toList, limit := limit' }
      { text := text.toList, limit := limit } := by
    intro n hn
    have hle : 0 + n ≤ limit := of_decide_eq_true hn
    exact decide_eq_true (Nat.le_trans hle h)
  -- Fragments are read without regard to the limit.
  have hfragment : Fragment.read { settings with maxDepth := limit } =
      Fragment.read { settings with maxDepth := limit' } := rfl
  unfold read
  rw [Level.read_congr hfragment]
  exact Level.read_eq_or_tooDeep _ hadmits rfl

theorem parse_eq_or_tooDeep_raced :
    parse { maxDepth := 1 } "colour=red AND ((title=a))" =
        parse { maxDepth := 2 } "colour=red AND ((title=a))" ∧
      parse { maxDepth := 2 } "((title=a))" = .ok (.single (.group (.single
        (.group (.single (.term { address := .field .title, value := "a" }))
          false)) false)) ∧
      exists error, parse { maxDepth := 1 } "((title=a))" = .error error ∧
        error.kind = .tooDeeplyNested := by
  have hunknown : parse { maxDepth := 1 } "colour=red AND ((title=a))" =
      .error
        { cause := .unknownField "colour", fragment := "colour=red",
          query := "colour=red AND ((title=a))" } := rfl
  have hdeep : parse { maxDepth := 1 } "((title=a))" = .error
      { cause := .tooDeep 1, fragment := "((title=a))",
        query := "((title=a))" } := rfl
  refine ⟨?_, rfl, _, hdeep, rfl⟩
  rcases parse_eq_or_tooDeep {} (show 1 ≤ 2 by decide)
    "colour=red AND ((title=a))" with heq | ⟨error, herror, hkind⟩
  · exact heq
  · rw [hunknown] at herror
    cases herror
    cases hkind

end Query

end SearchQuery
