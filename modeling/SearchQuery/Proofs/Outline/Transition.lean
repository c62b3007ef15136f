import SearchQuery.Proofs.Outline.Scan

/-!
# Transitions of a reading

Everything that one character can do to a reading, once and for all.  Invariants
of a scan are proved over these transitions and never over the stages
themselves.
-/

namespace SearchQuery

namespace Reading

def part (r : Reading) : Part :=
  match r.stage with
  | .gap => {}
  | .word part => part
  | .term part => part
  | .group part _ => part

def openBrackets (r : Reading) : Nat :=
  match r.stage with
  | .group _ inner => inner + 1
  | _ => 0

inductive Grows (c : Char) : Stage -> Stage -> Prop where
  | start : Text.isBlank c = false -> Grows c .gap (.word (Part.push {} c))
  | word {p : Part} : Text.isBlank c = false ->
      Grows c (.word p) (.word (p.push c))
  | wordEnd {p : Part} : Text.isBlank c = true ->
      Keyword.ofWord? p.text = none -> Grows c (.word p) (.term (p.push c))
  | term {p : Part} : (p.push c).stopWord? = none ->
      Grows c (.term p) (.term (p.push c))
  | group {p : Part} {inner : Nat} :
      Grows c (.group p inner) (.group (p.push c) inner)

/-- What one character does to a reading. -/
inductive Transition (l : Level) (r : Reading) (c : Char) : Move -> Prop where
  | skip : r.stage = .gap -> Text.isBlank c = true -> Transition l r c (.go r)
  | keyword {p : Part} {k : Keyword} : r.stage = .word p ->
      Text.isBlank c = true -> Keyword.ofWord? p.text = some k ->
      Transition l r c (.go (r.heed k))
  | grow {stage : Stage} : r.part.opens c = false -> r.part.closes c = false ->
      Grows c r.stage stage -> Transition l r c (.go { r with stage := stage })
  | stopWord {p : Part} {s : Relation} : r.stage = .term p ->
      (p.push c).stopWord? = some s ->
      Transition l r c
        (.emit (r.piece (.flat (p.push c).term)) { relation := s })
  | opening : r.part.opens c = true ->
      l.allows (r.openBrackets + 1) = true ->
      Transition l r c
        (.go { r with stage := .group (r.part.push '(') r.openBrackets })
  | openingBehind {p : Part} {k : Keyword} : r.stage = .word p ->
      p.opens c = true -> Keyword.ofWord? p.text = some k ->
      l.allows 1 = true ->
      Transition l r c
        (.go { r.heed k with stage := .group (Part.push {} '(') 0 })
  | tooDeep : r.part.opens c = true ->
      l.allows (r.openBrackets + 1) = false ->
      Transition l r c (.stop ⟨.tooDeep l.limit, l.text⟩)
  | closing {p : Part} {inner : Nat} : r.stage = .group p (inner + 1) ->
      p.closes c = true ->
      Transition l r c (.go { r with stage := .group (p.push c) inner })
  | groupEnd {p : Part} {inner : List Char} : r.stage = .group p 0 ->
      p.closes c = true -> p.text = '(' :: inner ->
      Transition l r c
        (.emit (r.piece (.bracketed inner))
          { r with stage := .gap, negated := false })
  | stray {p : Part} : r.stage = .group p 0 -> p.closes c = true ->
      Transition l r c (.stop ⟨.strayGroup, p.text ++ [')']⟩)
  | unmatched : r.openBrackets = 0 -> r.part.closes c = true ->
      Transition l r c (.stop ⟨.unmatchedClose, (r.part.push ')').text⟩)

theorem transition_openGroup {l : Level} {r : Reading} {c : Char}
    (h : r.part.opens c = true) :
    Transition l r c (Reading.openGroup l r r.part r.openBrackets) := by
  unfold openGroup
  split
  next hallows => exact Transition.opening h hallows
  next hallows =>
    exact Transition.tooDeep h (Bool.not_eq_true _ ▸ hallows)

theorem transition_step (l : Level) (r : Reading) (c : Char) :
    Transition l r c (r.step l c) := by
  rcases r with ⟨stage, negated, relation⟩
  cases stage with
  | gap =>
      simp only [step, refuseClose]
      split
      next hblank => exact Transition.skip rfl hblank
      split
      next hopens => exact transition_openGroup hopens
      split
      next hcloses => exact Transition.unmatched rfl hcloses
      next hblank hopens hcloses =>
        rw [Bool.not_eq_true] at hblank hopens hcloses
        exact Transition.grow hopens hcloses (Grows.start hblank)
  | word p =>
      simp only [step, refuseClose]
      split
      next hopens =>
        split
        next k hk =>
          unfold openGroup
          split
          next hallows =>
            exact Transition.openingBehind rfl hopens hk hallows
          next hallows =>
            exact Transition.tooDeep hopens (Bool.not_eq_true _ ▸ hallows)
        next => exact transition_openGroup hopens
      split
      next hcloses => exact Transition.unmatched rfl hcloses
      next hopens hcloses =>
        rw [Bool.not_eq_true] at hopens hcloses
        split
        next hblank =>
          split
          next k hk => exact Transition.keyword rfl hblank hk
          next hk =>
            exact Transition.grow hopens hcloses (Grows.wordEnd hblank hk)
        next hblank =>
          rw [Bool.not_eq_true] at hblank
          exact Transition.grow hopens hcloses (Grows.word hblank)
  | term p =>
      simp only [step, refuseClose]
      split
      next hopens => exact transition_openGroup hopens
      split
      next hcloses => exact Transition.unmatched rfl hcloses
      next hopens hcloses =>
        rw [Bool.not_eq_true] at hopens hcloses
        split
        next s hstop => exact Transition.stopWord rfl hstop
        next hstop =>
          exact Transition.grow hopens hcloses (Grows.term hstop)
  | group p inner =>
      simp only [step]
      split
      next hopens => exact transition_openGroup hopens
      next hopens =>
        rw [Bool.not_eq_true] at hopens
        split
        next hcloses =>
          split
          · unfold closeGroup
            split
            next inner htext =>
              exact Transition.groupEnd rfl hcloses htext
            next => exact Transition.stray rfl hcloses
          · exact Transition.closing rfl hcloses
        next hcloses =>
          rw [Bool.not_eq_true] at hcloses
          exact Transition.grow hopens hcloses Grows.group

/-- What every step keeps of a reading, and what follows from it for a piece that a
step or the end of the text completes, holds of all pieces of an outline. -/
theorem forall_of_mem_outline {l : Level} {I : Reading -> Prop}
    {P : Piece -> Prop}
    (hnext : forall r c m next, Transition l r c m -> m.next? = some next ->
      I r -> I next)
    (hemit : forall r c p next, Transition l r c (.emit p next) -> I r -> P p)
    (hfinish : forall r p, p ∈ r.finish.pieces -> I r -> P p)
    {r : Reading} (hr : I r) {text : List Char} {p : Piece}
    (hp : p ∈ (r.outline l text).pieces) : P p := by
  induction text generalizing r with
  | nil => exact hfinish r p hp hr
  | cons c rest ih =>
      have htransition := transition_step l r c
      rw [outline_cons] at hp
      cases hstep : r.step l c with
      | go next =>
          rw [hstep] at hp htransition
          exact ih (hnext r c _ next htransition rfl hr) hp
      | emit piece next =>
          rw [hstep] at hp htransition
          rcases List.mem_cons.mp hp with rfl | hp
          · exact hemit r c p next htransition hr
          · exact ih (hnext r c _ next htransition rfl hr) hp
      | stop fault =>
          rw [hstep] at hp
          cases hp

theorem of_fault?_outline {l : Level} {I : Reading -> List Char -> Prop}
    {P : Fault -> Prop}
    (hnext : forall r c rest m next, Transition l r c m -> m.next? = some next ->
      I r (c :: rest) -> I next rest)
    (hstop : forall r c rest fault, Transition l r c (.stop fault) ->
      I r (c :: rest) -> P fault)
    (hfinish : forall r fault, r.finish.fault? = some fault -> I r [] -> P fault)
    {r : Reading} {text : List Char} (hr : I r text) {fault : Fault}
    (h : (r.outline l text).fault? = some fault) : P fault := by
  induction text generalizing r with
  | nil => exact hfinish r fault h hr
  | cons c rest ih =>
      have htransition := transition_step l r c
      rw [outline_cons] at h
      cases hstep : r.step l c with
      | go next =>
          rw [hstep] at h htransition
          exact ih (hnext r c rest _ next htransition rfl hr) h
      | emit p next =>
          rw [hstep] at h htransition
          exact ih (hnext r c rest _ next htransition rfl hr) h
      | stop fault' =>
          rw [hstep] at h htransition
          cases h
          exact hstop r c rest fault htransition hr

theorem holds_of_run {l : Level} {r last : Reading}
    {I : List Char -> Reading -> Prop}
    (hnext : forall done r c m next, Transition l r c m -> m.next? = some next ->
      I done r -> I (done ++ [c]) next)
    (done text : List Char) (hr : I done r)
    (h : (r.run l text).2 = .ok last) : I (done ++ text) last := by
  induction text generalizing r done with
  | nil =>
      cases h
      rwa [List.append_nil]
  | cons c text ih =>
      have htransition := transition_step l r c
      rw [run] at h
      rw [List.append_cons]
      cases hstep : r.step l c with
      | go next =>
          rw [hstep] at h htransition
          exact ih _ (hnext done r c _ next htransition rfl hr) h
      | emit p next =>
          rw [hstep] at h htransition
          exact ih _ (hnext done r c _ next htransition rfl hr) h
      | stop fault =>
          rw [hstep] at h
          cases h

end Reading

end SearchQuery
