import SearchQuery.Proofs.Outline.Coherent
import SearchQuery.Proofs.Outline.Nesting
import SearchQuery.Proofs.Text.Bracket

/-!
# The inside of a group

A reading has seen every bracket of a group before the group becomes a piece.  So
the brackets inside a group nest within what the limit leaves for it, also in a
text that has a fault further on; and a level is too deep only where more brackets
are open than the limit allows.
-/

namespace SearchQuery

namespace Level

def roomInside (l : Level) : Nat :=
  l.limit - (l.depth + 1)

theorem lt_of_allows {l : Level} {n : Nat} (h : l.allows (n + 1) = true) :
    l.depth < l.limit ∧ n ≤ l.roomInside := by
  have hle : l.depth + (n + 1) ≤ l.limit := of_decide_eq_true h
  unfold roomInside
  omega

end Level

namespace Reading

variable {l : Level} {r : Reading} {c : Char}

/-- The invariant of a reading within a group: behind the bracket of the group
brackets nest, as soon as the open ones of them are closed. -/
def Encloses (l : Level) (r : Reading) : Prop :=
  forall part inner, r.stage = .group part inner -> l.depth < l.limit ∧
    exists front inside, part.text = front ++ '(' :: inside ∧
      Text.brackets false front = [] ∧ Text.escapedAfter false front = false ∧
      forall bs, Bracket.NestsWithin l.roomInside inner bs ->
        Bracket.NestsWithin l.roomInside 0 (Text.brackets false inside ++ bs)

theorem encloses_gap (h : r.stage = .gap) : r.Encloses l := by
  intro part inner hs
  rw [h] at hs
  cases hs

theorem encloses_open {p : Part} (hp : p.Tracked)
    (hbrackets : Text.brackets false p.text = []) (hopens : p.opens c = true)
    (hlt : l.depth < l.limit) :
    Encloses l { r with stage := .group (p.push '(') 0 } := by
  intro part inner hs
  cases hs
  refine ⟨hlt, p.text, [], Part.text_push p '(', hbrackets, ?_, fun _ h => h⟩
  rw [← hp]
  cases hescaped : p.escaped with
  | false => rfl
  | true =>
      rw [Part.opens, hescaped] at hopens
      cases hopens

theorem encloses_push {p : Part} {n n' : Nat} (hs : r.stage = .group p n)
    (hr : r.Coherent) (h : r.Encloses l)
    (hc : forall bs, Bracket.NestsWithin l.roomInside n' bs ->
      Bracket.NestsWithin l.roomInside n (Text.brackets p.escaped [c] ++ bs)) :
    Encloses l { r with stage := .group (p.push c) n' } := by
  rcases h p n hs with ⟨hlt, front, inside, htext, hfront, hflag, hinside⟩
  have htracked := hr.tracked
  simp only [part, hs] at htracked
  have hescaped : Text.escapedAfter false inside = p.escaped := by
    rw [htracked, htext, Text.escapedAfter_append, hflag]
    rfl
  intro part inner hs
  cases hs
  refine ⟨hlt, front, inside ++ [c], ?_, hfront, hflag, ?_⟩
  · rw [Part.text_push, htext, List.append_assoc, List.cons_append]
  · intro bs hbs
    rw [Text.brackets_append, hescaped, List.append_assoc]
    exact hinside _ (hc bs hbs)

theorem encloses_grow {stage : Stage} (hr : r.Coherent) (h : r.Encloses l)
    (ho : r.part.opens c = false) (hc : r.part.closes c = false)
    (hgrows : Grows c r.stage stage) :
    Encloses l { r with stage := stage } := by
  rcases r with ⟨stage₀, negated, relation⟩
  rw [← Bool.not_eq_true] at ho hc
  cases hgrows with
  | @group p n =>
      apply encloses_push (p := p) (n := n) rfl hr h
      intro bs hbs
      rw [show Text.brackets p.escaped [c] = [] from
        Part.brackets_cons_of_neither ho hc []]
      exact hbs
  | start =>
      intro part inner hs
      cases hs
  | word =>
      intro part inner hs
      cases hs
  | wordEnd =>
      intro part inner hs
      cases hs
  | term =>
      intro part inner hs
      cases hs

theorem encloses_opening (hr : r.Coherent) (h : r.Encloses l)
    (hopens : r.part.opens c = true)
    (hallows : l.allows (r.openBrackets + 1) = true) :
    Encloses l { r with stage := .group (r.part.push '(') r.openBrackets } := by
  rcases Level.lt_of_allows hallows with ⟨hlt, hle⟩
  have htracked := hr.tracked
  have hholds := hr.holds
  rcases r with ⟨stage, negated, relation⟩
  cases stage with
  | gap => exact encloses_open htracked rfl hopens hlt
  | word p => exact encloses_open htracked hholds.2.2.brackets hopens hlt
  | term p => exact encloses_open htracked hholds.2.brackets hopens hlt
  | group p n =>
      have hbracket := Part.opens_eq_true_iff.mp hopens
      rw [← Text.eq_of_bracket?_opening hbracket]
      apply encloses_push (p := p) (n := n) rfl hr h
      intro bs hbs
      rw [show Text.brackets p.escaped [c] = [.opening] from
        Part.brackets_cons_of_opens hopens []]
      exact ⟨hle, hbs⟩

theorem encloses_of_transition {m : Move} (h : Transition l r c m)
    (hr : r.Coherent) (henc : r.Encloses l) {next : Reading}
    (hm : m.next? = some next) : next.Encloses l := by
  cases h with
  | skip =>
      cases hm
      exact henc
  | @keyword p k =>
      cases hm
      cases k <;> exact encloses_gap rfl
  | grow ho hc hgrows =>
      cases hm
      exact encloses_grow hr henc ho hc hgrows
  | stopWord =>
      cases hm
      exact encloses_gap rfl
  | opening hopens hallows =>
      cases hm
      exact encloses_opening hr henc hopens hallows
  | openingBehind hs hopens hk hallows =>
      cases hm
      exact encloses_open (c := '(') Part.tracked_empty rfl rfl
        (Level.lt_of_allows hallows).1
  | tooDeep => cases hm
  | @closing p n hs hcloses =>
      cases hm
      apply encloses_push hs hr henc
      intro bs hbs
      rw [show Text.brackets p.escaped [c] = [.closing] from
        Part.brackets_cons_of_closes hcloses []]
      exact hbs
  | groupEnd =>
      cases hm
      exact encloses_gap rfl
  | stray => cases hm
  | unmatched => cases hm

theorem nestsWithin_of_emit {p : Piece} {next : Reading}
    (h : Transition l r c (.emit p next)) (henc : r.Encloses l)
    {inner : List Char} (hbody : p.body = .bracketed inner) :
    l.depth < l.limit ∧
      Bracket.NestsWithin l.roomInside 0 (Text.brackets false inner) := by
  generalize hm : Move.emit p next = m at h
  cases h with
  | stopWord =>
      cases hm
      cases hbody
  | @groupEnd part inner hs hcloses htext =>
      cases hm
      cases hbody
      rcases henc part 0 hs with
        ⟨hlt, front, inside, hsplit, hfront, _, hinside⟩
      -- The text of the group has no bracket in front of its own.
      have hnil : front = [] := by
        cases front with
        | nil => rfl
        | cons d front =>
            rw [htext] at hsplit
            injection hsplit with hd _
            rw [← hd] at hfront
            cases hfront
      rw [htext, hnil] at hsplit
      injection hsplit with _ hsplit
      have hnests := hinside [] rfl
      rw [List.append_nil, ← hsplit] at hnests
      exact ⟨hlt, hnests⟩
  | _ => cases hm

end Reading

theorem Outline.nestsWithin_of_mem_ofLevel {l : Level} {p : Piece}
    (hp : p ∈ (ofLevel l).pieces) {inner : List Char}
    (hbody : p.body = .bracketed inner) :
    l.depth < l.limit ∧
      Bracket.NestsWithin l.roomInside 0 (Text.brackets false inner) := by
  have hpiece : forall inner, p.body = .bracketed inner -> l.depth < l.limit ∧
      Bracket.NestsWithin l.roomInside 0 (Text.brackets false inner) := by
    apply Reading.forall_of_mem_outline
      (I := fun r => r.Coherent ∧ r.Encloses l) _ _ _
      ⟨Reading.coherent_gap rfl, Reading.encloses_gap rfl⟩ hp
    · intro r c m next h hm hr
      exact ⟨Reading.coherent_of_transition h hr.1 hm,
        Reading.encloses_of_transition h hr.1 hr.2 hm⟩
    · intro r c p next h hr inner hbody
      exact Reading.nestsWithin_of_emit h hr.2 hbody
    · intro r p hp hr inner hbody
      rcases r with ⟨_ | _ | _ | _, negated, relation⟩
      · cases hp
      · rw [List.mem_singleton.mp hp] at hbody
        cases hbody
      · rw [List.mem_singleton.mp hp] at hbody
        cases hbody
      · cases hp
  exact hpiece inner hbody

/-!
# Too many open brackets
-/

namespace Reading

variable {l : Level} {r : Reading}

theorem exists_prefix_of_tooDeep {text : List Char} {fault : Fault}
    (h : (r.outline l text).fault? = some fault)
    (hkind : fault.cause.kind = .tooDeeplyNested) :
    exists p, p <+: text ∧ l.limit <
      l.depth + Bracket.openAfter r.openBrackets
        (Text.brackets r.part.escaped p) := by
  induction text generalizing r with
  | nil =>
      rw [outline_nil, finish] at h
      split at h
      · cases h
      · cases h
      · cases h
      · cases h
        cases hkind
  | cons c rest ih =>
      -- The brackets up to a place behind `c` are counted from the next reading on.
      have hbehind : forall next, (r.step l c).next? = some next ->
          (next.outline l rest).fault? = some fault ->
            exists p, p <+: c :: rest ∧ l.limit <
              l.depth + Bracket.openAfter r.openBrackets
                (Text.brackets r.part.escaped p) := by
        intro next hm hfault
        rcases ih hfault with ⟨p, hp, hlt⟩
        refine ⟨c :: p, List.cons_prefix_cons.mpr ⟨rfl, hp⟩, ?_⟩
        cases turns_of_transition (transition_step l r c) hm with
        | none hopen hbrackets =>
            rw [hbrackets, ← hopen]
            exact hlt
        | opening hopen _ hbrackets =>
            rw [hbrackets, Bracket.openAfter_opening, ← hopen]
            exact hlt
        | closing hopen hbrackets =>
            rw [hbrackets, Bracket.openAfter_closing, hopen]
            exact hlt
      have htransition := transition_step l r c
      rw [outline_cons] at h
      cases hstep : r.step l c with
      | go next =>
          rw [hstep] at h
          exact hbehind next (by rw [hstep]; rfl) h
      | emit p next =>
          rw [hstep] at h
          exact hbehind next (by rw [hstep]; rfl) h
      | stop fault' =>
          rw [hstep] at h htransition
          cases h
          cases htransition with
          | tooDeep hopens hallows =>
              refine ⟨[c], List.cons_prefix_cons.mpr ⟨rfl, List.nil_prefix⟩,
                ?_⟩
              rw [Part.brackets_cons_of_opens hopens]
              exact Nat.lt_of_not_le (of_decide_eq_false hallows)
          | stray => cases hkind
          | unmatched => cases hkind

/-- A text whose brackets nest behind a reading has no fault in them.  Only a group
may begin in the middle of a term. -/
theorem cause_of_nestsOn {text : List Char} {fault : Fault}
    (h : (r.outline l text).fault? = some fault) (hnests : NestsOn l r text) :
    fault.cause = .strayGroup := by
  refine of_fault?_outline (I := NestsOn l)
    (P := fun fault => fault.cause = .strayGroup) ?_ ?_ ?_ hnests h
  · intro r c rest m next htransition hm hcons
    exact (nestsOn_cons_iff htransition hm).mp hcons
  · intro r c rest fault htransition hcons
    unfold NestsOn at hcons
    cases htransition with
    | tooDeep hopens hallows =>
        rw [Part.brackets_cons_of_opens hopens] at hcons
        have hlt := of_decide_eq_false hallows
        have hle := hcons.1
        omega
    | stray => rfl
    | unmatched hopen hcloses =>
        rw [Part.brackets_cons_of_closes hcloses, hopen] at hcons
        exact hcons.elim
  · intro r fault hfinish hnil
    rcases r with ⟨_ | _ | _ | ⟨part, inner⟩, negated, relation⟩
    · cases hfinish
    · cases hfinish
    · cases hfinish
    · exact absurd hnil (Nat.succ_ne_zero inner)

theorem fragment_of_tooDeep {text : List Char} {fault : Fault}
    (h : (r.outline l text).fault? = some fault)
    (hkind : fault.cause.kind = .tooDeeplyNested) : fault.fragment = l.text := by
  revert hkind
  refine of_fault?_outline (I := fun _ _ => True)
    (P := fun fault => fault.cause.kind = .tooDeeplyNested ->
      fault.fragment = l.text) ?_ ?_ ?_ trivial h
  · intro r c rest m next htransition hm hr
    trivial
  · intro r c rest fault htransition hr hkind
    cases htransition with
    | tooDeep => rfl
    | stray => cases hkind
    | unmatched => cases hkind
  · intro r fault hfinish hr hkind
    rcases r with ⟨_ | _ | _ | _, negated, relation⟩
    · cases hfinish
    · cases hfinish
    · cases hfinish
    · cases hfinish
      cases hkind

end Reading

theorem Outline.cause_of_nestsWithin {l : Level}
    (h : Bracket.NestsWithin (l.limit - l.depth) 0
      (Text.brackets false l.text)) {fault : Fault}
    (hfault : (ofLevel l).fault? = some fault) :
    fault.cause = .strayGroup :=
  Reading.cause_of_nestsOn (r := {}) hfault h

end SearchQuery
