import SearchQuery.Proofs.Outline.Coherent
import SearchQuery.Proofs.Outline.Nesting
import SearchQuery.Proofs.Outline.Scanner

/-!
# Readings and scanners

A reading has in its stage what a scanner has in its flags.  The scanner of a reading
does with every character what the reading does, so that both make the same outline.
And with the gap between two parts goes a scanner whose flags are all clear.
-/

namespace SearchQuery

namespace Stage

def isGroup : Stage -> Bool
  | group _ _ => true
  | _ => false

def isBehindHead : Stage -> Bool
  | term _ => true
  | group _ _ => true
  | _ => false

end Stage

namespace Reading

/-- The scanner that stands where a reading does. -/
def scanner (r : Reading) : Scanner where
  part := r.part.text
  depth := r.openBrackets
  inBracket := r.stage.isGroup
  negated := r.negated
  relation := r.relation
  headDone := r.stage.isBehindHead
  escaped := r.part.escaped

def Headed (r : Reading) : Prop :=
  r.stage = .gap ∨ exists c text, r.part.text = c :: text ∧
    Text.isBlank c = false

end Reading

def Move.scanned : Move -> Except Fault (Option Piece × Scanner)
  | go next => .ok (none, next.scanner)
  | emit p next => .ok (some p, next.scanner)
  | stop fault => .error fault

/-!
# Steps
-/

namespace Reading

variable {l : Level} {r : Reading} {c : Char}

theorem scanner_push (stage : Stage)
    (h : part { r with stage := stage } = r.part.push c) :
    scanner { r with stage := stage } =
      { r.scanner.push c with
        depth := openBrackets { r with stage := stage }
        inBracket := stage.isGroup, headDone := stage.isBehindHead } := by
  rw [scanner, h, Part.text_push, Part.escaped_push]
  rfl

theorem Headed.part_ne_nil (h : r.Headed) (hs : r.stage ≠ .gap) :
    r.scanner.part ≠ [] := by
  rcases h with hgap | ⟨d, text, htext, _⟩
  · exact absurd hgap hs
  · show r.part.text ≠ []
    rw [htext]
    exact List.cons_ne_nil d text

theorem Headed.trim_concat (h : r.Headed) :
    Text.trim (r.part.text ++ [')']) = r.part.text ++ [')'] := by
  rcases h with hs | ⟨d, text, htext, hd⟩
  · rw [part, hs]
    rfl
  · rw [htext, List.cons_append, Text.trim_of_not_blank hd, ← List.cons_append]
    exact Text.trimEnd_concat_of_not_blank rfl (d :: text)

section Bracket

theorem step_scanner_opens (hopens : r.part.opens c = true)
    (hword : r.stage.isBehindHead = true ∨
      Keyword.ofWord? r.part.text = none) :
    r.scanner.step l c =
      (openGroup l r r.part r.openBrackets).scanned := by
  have hbracket := Part.opens_eq_true_iff.mp hopens
  have hc := Text.eq_of_bracket?_opening hbracket
  unfold openGroup
  split
  next hallows =>
    rw [Scanner.step_of_opening (s := r.scanner) hbracket hallows hword,
      Move.scanned, hc,
      scanner_push (.group (r.part.push '(') r.openBrackets) rfl]
    rfl
  next hfull =>
    rw [Bool.not_eq_true] at hfull
    exact Scanner.step_of_full hbracket hfull

theorem step_scanner_opensBehind {p : Part} {k : Keyword}
    (hs : r.stage = .word p) (hopens : p.opens c = true)
    (hk : Keyword.ofWord? p.text = some k) :
    r.scanner.step l c = (openGroup l (r.heed k) {} 0).scanned := by
  rcases r with ⟨stage, negated, relation⟩
  cases hs
  have hbracket := Part.opens_eq_true_iff.mp hopens
  unfold openGroup
  split
  next hallows =>
    rw [Scanner.step_of_openingBehind hbracket hallows rfl hk]
    cases k <;> rfl
  next hfull =>
    rw [Bool.not_eq_true] at hfull
    exact Scanner.step_of_full hbracket hfull

theorem step_scanner_refuseClose (hheaded : r.Headed)
    (hcloses : r.part.closes c = true) (hopen : r.openBrackets = 0) :
    r.scanner.step l c = (refuseClose r.part).scanned := by
  have hbracket := Part.closes_eq_true_iff.mp hcloses
  rw [Scanner.step_of_unmatched (s := r.scanner) hbracket hopen]
  show Except.error (Fault.mk _ (Text.trim (r.part.text ++ [')']))) = _
  rw [hheaded.trim_concat, ← Part.text_push]
  rfl

theorem step_scanner_closing {p : Part} {inner : Nat}
    (hs : r.stage = .group p (inner + 1)) (hcloses : p.closes c = true) :
    r.scanner.step l c =
      (Move.go { r with stage := .group (p.push c) inner }).scanned := by
  rcases r with ⟨stage, negated, relation⟩
  cases hs
  have hbracket := Part.closes_eq_true_iff.mp hcloses
  have hescaped : Text.escapesNext p.escaped ')' = false :=
    Text.escapesNext_of_ne (by decide) _
  rw [Scanner.step_of_closing hbracket rfl rfl,
    Scanner.complete_of_open rfl (Nat.succ_ne_zero inner), Move.scanned,
    Text.eq_of_bracket?_closing hbracket,
    scanner_push (.group (p.push ')') inner) rfl]
  simp only [Scanner.push, scanner, part, hescaped]
  rfl

theorem step_scanner_closeGroup {p : Part} (hs : r.stage = .group p 0)
    (hheaded : r.Headed) (hcloses : p.closes c = true) :
    r.scanner.step l c = (closeGroup r p).scanned := by
  rcases r with ⟨stage, negated, relation⟩
  cases hs
  have hbracket := Part.closes_eq_true_iff.mp hcloses
  have htrim : Text.trim (p.text ++ [')']) = p.text ++ [')'] :=
    hheaded.trim_concat
  rw [Scanner.step_of_closing hbracket rfl rfl]
  cases hinside : Scanner.inside? (p.text ++ [')']) with
  | some inner =>
      rw [Scanner.complete_of_inside rfl rfl htrim hinside, closeGroup,
        Scanner.inside?_concat_eq_some_iff.mp hinside]
      rfl
  | none =>
      rw [Scanner.complete_of_stray rfl rfl htrim hinside]
      unfold closeGroup
      split
      next inner htext =>
        rw [Scanner.inside?_concat_eq_some_iff.mpr htext] at hinside
        cases hinside
      next => rfl

end Bracket

theorem endsWithStopWord_of_word {p : Part}
    (h : p.text.any Text.isBlank = false) (c : Char) :
    Scanner.endsWithStopWord (p.push c).text = false := by
  rw [Scanner.endsWithStopWord_eq, Part.stopWord?_eq_none_iff.mpr]
  · rfl
  intro s hs
  rw [Part.text_push, Text.stopWord_suffix_concat_iff] at hs
  have hspace : ' ' ∈ p.text := hs.2.subset List.mem_cons_self
  exact List.any_eq_false.mp h ' ' hspace rfl

theorem complete_scanner_of_grows {stage : Stage} (hr : r.Coherent)
    (hgrows : Grows c r.stage stage) :
    (scanner { r with stage := stage }).complete =
      .ok (none, scanner { r with stage := stage }) := by
  rcases r with ⟨stage₀, negated, relation⟩
  have hholds := hr.holds
  cases hgrows with
  | start =>
      apply Scanner.complete_of_no_stopWord rfl
      exact endsWithStopWord_of_word (p := {}) rfl c
  | word =>
      apply Scanner.complete_of_no_stopWord rfl
      exact endsWithStopWord_of_word hholds.2.1 c
  | wordEnd =>
      apply Scanner.complete_of_no_stopWord rfl
      exact endsWithStopWord_of_word hholds.2.1 c
  | @term p hstop =>
      apply Scanner.complete_of_no_stopWord rfl
      show Scanner.endsWithStopWord (p.push c).text = false
      rw [Scanner.endsWithStopWord_eq, hstop]
      rfl
  | group => exact Scanner.complete_of_open rfl (Nat.succ_ne_zero _)

theorem step_scanner_grows {stage : Stage} (hr : r.Coherent)
    (hheaded : r.Headed) (ho : r.part.opens c = false)
    (hc : r.part.closes c = false) (hgrows : Grows c r.stage stage) :
    r.scanner.step l c = (Move.go { r with stage := stage }).scanned := by
  rw [← Bool.not_eq_true] at ho hc
  have hbracket := Part.bracket?_of_neither ho hc
  have hpart := (openBrackets_of_grows hgrows).2
  rw [Move.scanned, ← complete_scanner_of_grows hr hgrows,
    scanner_push stage hpart]
  rcases r with ⟨stage₀, negated, relation⟩
  cases hgrows with
  | start hblank =>
      exact Scanner.step_of_neither (Or.inr hblank) hbracket (Or.inr hblank)
  | word hblank =>
      exact Scanner.step_of_neither (Or.inr hblank) hbracket (Or.inr hblank)
  | wordEnd hblank hword =>
      rw [Scanner.step_of_blank (hheaded.part_ne_nil (by simp)) hblank rfl]
      exact Scanner.endHead_of_none hword c
  | term =>
      exact Scanner.step_of_neither (Or.inl (hheaded.part_ne_nil (by simp)))
        hbracket (Or.inl rfl)
  | group =>
      exact Scanner.step_of_neither (Or.inl (hheaded.part_ne_nil (by simp)))
        hbracket (Or.inl rfl)

theorem step_scanner_keyword {p : Part} {k : Keyword} (hs : r.stage = .word p)
    (hheaded : r.Headed) (hblank : Text.isBlank c = true)
    (hk : Keyword.ofWord? p.text = some k) :
    r.scanner.step l c = (Move.go (r.heed k)).scanned := by
  have hne := hheaded.part_ne_nil (by rw [hs]; simp)
  rcases r with ⟨stage, negated, relation⟩
  cases hs
  rw [Scanner.step_of_keyword hne hblank rfl hk]
  cases k <;> rfl

theorem step_scanner_stopWord {p : Part} {s : Relation} (hs : r.stage = .term p)
    (hheaded : r.Headed) (ho : p.opens c = false) (hc : p.closes c = false)
    (hstop : (p.push c).stopWord? = some s) :
    r.scanner.step l c =
      (Move.emit (r.piece (.flat (p.push c).term))
        { relation := s }).scanned := by
  have hne := hheaded.part_ne_nil (by rw [hs]; simp)
  rcases hheaded with hgap | ⟨d, text, htext, hd⟩
  · rw [hs] at hgap
    cases hgap
  rcases r with ⟨stage, negated, relation⟩
  cases hs
  rw [← Bool.not_eq_true] at ho hc
  have hbracket := Part.bracket?_of_neither ho hc
  have hescaped : Text.escapesNext p.escaped c = false := by
    rw [Part.stopWord?_eq_some_iff, Part.text_push,
      Text.stopWord_suffix_concat_iff] at hstop
    rw [hstop.1]
    exact Text.escapesNext_of_ne (by decide) _
  have hpush : (p.push c).text = d :: (text ++ [c]) := by
    rw [Part.text_push, show p.text = d :: text from htext]
    rfl
  rw [Scanner.step_of_neither (Or.inl hne) hbracket (Or.inl rfl),
    Scanner.complete_of_stopWord (Part.text_push p c).symm rfl hpush hd hstop]
  simp only [Scanner.push, scanner, part, hescaped]
  rfl

/-- One character does to the scanner of a reading what it does to the reading. -/
theorem step_scanner (hr : r.Coherent) (hheaded : r.Headed) :
    r.scanner.step l c = (r.step l c).scanned := by
  rcases r with ⟨stage, negated, relation⟩
  cases stage with
  | gap =>
      simp only [step]
      split
      next hblank => exact if_pos hblank
      split
      next hopens => exact step_scanner_opens hopens (Or.inr rfl)
      split
      next hcloses => exact step_scanner_refuseClose hheaded hcloses rfl
      next hblank hopens hcloses =>
        rw [Bool.not_eq_true] at hblank hopens hcloses
        exact step_scanner_grows hr hheaded hopens hcloses (Grows.start hblank)
  | word p =>
      simp only [step]
      split
      next hopens =>
        split
        next k hk => exact step_scanner_opensBehind rfl hopens hk
        next hk => exact step_scanner_opens hopens (Or.inr hk)
      split
      next hcloses => exact step_scanner_refuseClose hheaded hcloses rfl
      next hopens hcloses =>
        rw [Bool.not_eq_true] at hopens hcloses
        split
        next hblank =>
          split
          next k hk => exact step_scanner_keyword rfl hheaded hblank hk
          next hk =>
            exact step_scanner_grows hr hheaded hopens hcloses
              (Grows.wordEnd hblank hk)
        next hblank =>
          rw [Bool.not_eq_true] at hblank
          exact step_scanner_grows hr hheaded hopens hcloses
            (Grows.word hblank)
  | term p =>
      simp only [step]
      split
      next hopens => exact step_scanner_opens hopens (Or.inl rfl)
      split
      next hcloses => exact step_scanner_refuseClose hheaded hcloses rfl
      next hopens hcloses =>
        rw [Bool.not_eq_true] at hopens hcloses
        split
        next s hstop =>
          exact step_scanner_stopWord rfl hheaded hopens hcloses hstop
        next hstop =>
          exact step_scanner_grows hr hheaded hopens hcloses
            (Grows.term hstop)
  | group p inner =>
      simp only [step]
      split
      next hopens => exact step_scanner_opens hopens (Or.inl rfl)
      next hopens =>
        rw [Bool.not_eq_true] at hopens
        split
        next hcloses =>
          cases inner with
          | zero => exact step_scanner_closeGroup rfl hheaded hcloses
          | succ inner => exact step_scanner_closing rfl hcloses
        next hcloses =>
          rw [Bool.not_eq_true] at hcloses
          exact step_scanner_grows hr hheaded hopens hcloses Grows.group

/-!
# Runs
-/

theorem Headed.push (h : r.Headed)
    (hblank : r.stage = .gap -> Text.isBlank c = false) {stage : Stage}
    (hpart : part { r with stage := stage } = r.part.push c) :
    Headed { r with stage := stage } := by
  apply Or.inr
  rw [hpart, Part.text_push]
  rcases h with hs | ⟨d, text, htext, hd⟩
  · rw [part, hs]
    exact ⟨c, [], rfl, hblank hs⟩
  · rw [htext]
    exact ⟨d, text ++ [c], rfl, hd⟩

theorem headed_of_transition {m : Move} (h : Transition l r c m)
    (hr : r.Headed) {next : Reading} (hm : m.next? = some next) :
    next.Headed := by
  cases h with
  | skip =>
      cases hm
      exact hr
  | @keyword p k =>
      cases hm
      cases k <;> exact Or.inl rfl
  | grow ho hc hgrows =>
      cases hm
      apply hr.push _ (openBrackets_of_grows hgrows).2
      intro hs
      rw [hs] at hgrows
      cases hgrows with
      | start hblank => exact hblank
  | stopWord =>
      cases hm
      exact Or.inl rfl
  | opening =>
      cases hm
      exact hr.push (c := '(') (fun _ => rfl) rfl
  | openingBehind =>
      cases hm
      exact Or.inr ⟨'(', [], rfl, rfl⟩
  | tooDeep => cases hm
  | @closing p inner hs hcloses =>
      cases hm
      apply hr.push (c := c)
      · intro hgap
        rw [hs] at hgap
        cases hgap
      · simp only [part, hs]
  | groupEnd =>
      cases hm
      exact Or.inl rfl
  | stray => cases hm
  | unmatched => cases hm

theorem run_scanner (hr : r.Coherent) (hheaded : r.Headed) (text : List Char) :
    r.scanner.run l text =
      ((r.run l text).1, (r.run l text).2.map scanner) := by
  induction text generalizing r with
  | nil => rfl
  | cons c text ih =>
      have htransition := transition_step l r c
      rw [Scanner.run, run, step_scanner hr hheaded]
      cases hstep : r.step l c with
      | go next =>
          rw [hstep] at htransition
          rw [Move.scanned]
          simp only [ih (coherent_of_transition htransition hr rfl)
            (headed_of_transition htransition hheaded rfl)]
          rfl
      | emit p next =>
          rw [hstep] at htransition
          rw [Move.scanned]
          simp only [ih (coherent_of_transition htransition hr rfl)
            (headed_of_transition htransition hheaded rfl)]
          rfl
      | stop fault => rfl

theorem finish_scanner (hheaded : r.Headed) :
    r.scanner.finish = r.finish := by
  rcases hheaded with hs | ⟨d, text, htext, hd⟩
  · rcases r with ⟨stage, negated, relation⟩
    cases hs
    rfl
  have hempty : (Text.trim r.scanner.part).isEmpty = false := by
    show (Text.trim r.part.text).isEmpty = false
    rcases Text.exists_trim_eq_cons hd text with ⟨rest, hrest⟩
    rw [htext, hrest]
    rfl
  have hterm : Scanner.stripRelation (Text.trim r.scanner.part) = r.part.term :=
    Scanner.stripRelation_trim htext hd
  have htrim : Text.trim r.scanner.part = Text.trimEnd r.part.text := by
    show Text.trim r.part.text = _
    rw [htext, Text.trim_of_not_blank hd]
  rw [Scanner.finish, hempty, hterm, htrim]
  rcases r with ⟨_ | p | p | ⟨p, inner⟩, negated, relation⟩
  · cases htext
  · rfl
  · rfl
  · rfl

theorem headed_of_run {last : Reading} {text : List Char}
    (h : (Reading.run l {} text).2 = .ok last) : last.Headed := by
  refine holds_of_run (I := fun _ => Headed) ?_ [] text (Or.inl rfl) h
  intro done r c m next htransition hm hr
  exact headed_of_transition htransition hr hm

end Reading

namespace Scanner

theorem outline_eq (l : Level) : outline l = Outline.ofLevel l := by
  have hrun := Reading.run_scanner (l := l) (r := {}) (Reading.coherent_gap rfl)
    (Or.inl rfl) l.text
  rw [outline, show ({} : Scanner) = Reading.scanner {} from rfl, hrun,
    Outline.ofLevel]
  cases hlast : Reading.run l {} l.text with
  | mk pieces result =>
      cases result with
      | error fault => rfl
      | ok last =>
          have hheaded : last.Headed :=
            Reading.headed_of_run (congrArg Prod.snd hlast)
          simp only [Except.map, Reading.finish_scanner hheaded]

theorem exists_of_run {l : Level} {text : List Char} {s : Scanner}
    (h : (Scanner.run l {} text).2 = .ok s) :
    exists last, (Reading.run l {} text).2 = .ok last ∧ last.scanner = s := by
  have hrun := Reading.run_scanner (l := l) (r := {}) (Reading.coherent_gap rfl)
    (Or.inl rfl) text
  rw [show ({} : Scanner) = Reading.scanner {} from rfl, hrun] at h
  cases hlast : (Reading.run l {} text).2 with
  | error fault =>
      rw [hlast] at h
      cases h
  | ok last =>
      rw [hlast] at h
      cases h
      exact ⟨last, rfl, rfl⟩

theorem eq_of_part_eq_nil {l : Level} {text : List Char} {s : Scanner}
    (h : (Scanner.run l {} text).2 = .ok s) (hpart : s.part = []) :
    s = { negated := s.negated, relation := s.relation } := by
  rcases exists_of_run h with ⟨last, hlast, rfl⟩
  rcases Reading.headed_of_run hlast with hs | ⟨d, rest, htext, _⟩
  · rcases last with ⟨stage, negated, relation⟩
    cases hs
    rfl
  · rw [show last.part.text = [] from hpart] at htext
    cases htext

end Scanner

end SearchQuery
