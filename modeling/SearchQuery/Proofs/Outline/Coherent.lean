import SearchQuery.Proofs.Outline.Flat
import SearchQuery.Proofs.Outline.Transition

/-!
# What a reading holds back

Outside of groups a reading holds back flat text and nothing else, so every flat
piece of an outline is a flat text.
-/

namespace SearchQuery

namespace Part

def Tracked (p : Part) : Prop :=
  p.escaped = Text.escapedAfter false p.text

theorem tracked_empty : Tracked {} := rfl

variable {p : Part} {c : Char}

theorem Tracked.push (h : p.Tracked) (c : Char) : (p.push c).Tracked := by
  rw [Tracked, text_push, Text.escapedAfter_append, ← h]
  rfl

theorem Tracked.brackets_push (h : p.Tracked) (ho : p.opens c = false)
    (hc : p.closes c = false) (hp : Text.brackets false p.text = []) :
    Text.brackets false (p.push c).text = [] := by
  rw [← Bool.not_eq_true] at ho hc
  rw [text_push, Text.brackets_append, hp, ← h,
    brackets_cons_of_neither ho hc]
  rfl

/-- What a part may hold in front of a stage. -/
def Holds : Stage -> Prop
  | .gap => True
  | .word p =>
      p.text ≠ [] ∧ p.text.any Text.isBlank = false ∧ Flat p.text
  | .term p => p.text.any Text.isBlank = true ∧ Flat p.text
  | .group _ _ => True

theorem ne_nil_of_holds_term (h : Part.Holds (.term p)) : p.text ≠ [] := by
  rcases h with ⟨hany, _⟩
  intro hnil
  rw [hnil] at hany
  cases hany

theorem flat_start (ho : Part.opens {} c = false)
    (hc : Part.closes {} c = false) (hblank : Text.isBlank c = false) :
    Flat (Part.push {} c).text where
  head := by
    intro d hd
    cases hd
    exact hblank
  brackets := tracked_empty.brackets_push ho hc rfl
  word := by
    intro hany
    simp [hblank] at hany
  stop := by
    apply Text.noStopWord_of_notMem
    intro hmem
    rw [← List.mem_singleton.mp hmem] at hblank
    cases hblank

theorem head_push (h : Flat p.text) (hne : p.text ≠ []) {d : Char}
    (hd : (p.push c).text.head? = some d) : Text.isBlank d = false := by
  apply h.head
  rw [text_push, List.head?_append] at hd
  cases htext : p.text with
  | nil => exact absurd htext hne
  | cons e rest =>
      rw [htext] at hd
      exact hd

theorem flat_push_word (h : p.Tracked) (ho : p.opens c = false)
    (hc : p.closes c = false) (hblank : Text.isBlank c = false)
    (hp : Part.Holds (.word p)) : Part.Holds (.word (p.push c)) := by
  rcases hp with ⟨hne, hany, hflat⟩
  have hpush : (p.push c).text.any Text.isBlank = false := by
    simp [hany, hblank]
  refine ⟨by simp, hpush, ?_⟩
  constructor
  · intro d hd
    exact head_push hflat hne hd
  · exact h.brackets_push ho hc hflat.brackets
  · intro hblanks
    rw [hpush] at hblanks
    cases hblanks
  · rw [text_push, Text.noStopWord_concat_iff]
    refine ⟨hflat.stop, ?_⟩
    intro heq
    rcases heq with rfl
    cases hblank

theorem flat_push_wordEnd (h : p.Tracked) (ho : p.opens c = false)
    (hc : p.closes c = false) (hblank : Text.isBlank c = true)
    (hword : Keyword.ofWord? p.text = none) (hp : Part.Holds (.word p)) :
    Part.Holds (.term (p.push c)) := by
  rcases hp with ⟨hne, hany, hflat⟩
  refine ⟨by simp [hblank], ?_⟩
  constructor
  · intro d hd
    exact head_push hflat hne hd
  · exact h.brackets_push ho hc hflat.brackets
  · intro _
    rw [text_push, Text.firstWord_append_blank hany hblank]
    exact hword
  · rw [text_push, Text.noStopWord_concat_iff]
    refine ⟨hflat.stop, ?_⟩
    intro _
    apply Text.noEnding_of_notMem
    intro hspace
    exact List.any_eq_false.mp hany ' ' hspace rfl

theorem flat_push_term (h : p.Tracked) (ho : p.opens c = false)
    (hc : p.closes c = false) (hstop : (p.push c).stopWord? = none)
    (hp : Part.Holds (.term p)) : Part.Holds (.term (p.push c)) := by
  have hne := ne_nil_of_holds_term hp
  rcases hp with ⟨hany, hflat⟩
  refine ⟨by simp [hany], ?_⟩
  constructor
  · intro d hd
    exact head_push hflat hne hd
  · exact h.brackets_push ho hc hflat.brackets
  · intro _
    rw [text_push, Text.firstWord_append_of_blank hany]
    exact hflat.word hany
  · intro r hr
    rw [text_push] at hr
    rcases List.infix_concat_iff.mp hr with hsuffix | hinfix
    · rw [stopWord?_eq_none_iff, text_push] at hstop
      exact hstop r hsuffix
    · exact hflat.stop r hinfix

end Part

namespace Reading

/-- The invariant of a reading. -/
structure Coherent (r : Reading) : Prop where
  tracked : r.part.Tracked
  holds : Part.Holds r.stage

theorem coherent_gap {r : Reading} (h : r.stage = .gap) : r.Coherent where
  tracked := by
    rw [part, h]
    rfl
  holds := by
    rw [h]
    trivial

variable {l : Level} {r : Reading} {c : Char}

theorem coherent_grow {stage : Stage} (h : r.Coherent)
    (ho : r.part.opens c = false) (hc : r.part.closes c = false)
    (hgrows : Grows c r.stage stage) :
    Coherent { r with stage := stage } := by
  rcases r with ⟨stage₀, negated, relation⟩
  rcases h with ⟨htracked, hholds⟩
  have hpush := htracked.push c
  cases hgrows with
  | start hblank =>
      refine ⟨hpush, by simp, by simp [hblank], ?_⟩
      exact Part.flat_start ho hc hblank
  | word hblank =>
      exact ⟨hpush, Part.flat_push_word htracked ho hc hblank hholds⟩
  | wordEnd hblank hword =>
      exact ⟨hpush, Part.flat_push_wordEnd htracked ho hc hblank hword hholds⟩
  | term hstop =>
      exact ⟨hpush, Part.flat_push_term htracked ho hc hstop hholds⟩
  | group => exact ⟨hpush, trivial⟩

theorem coherent_of_transition {m : Move} (h : Transition l r c m)
    (hr : r.Coherent) {next : Reading} (hm : m.next? = some next) :
    next.Coherent := by
  cases h with
  | skip =>
      cases hm
      exact hr
  | @keyword p k =>
      cases hm
      cases k <;> exact coherent_gap rfl
  | grow ho hc hgrows =>
      cases hm
      exact coherent_grow hr ho hc hgrows
  | stopWord =>
      cases hm
      exact coherent_gap rfl
  | opening =>
      cases hm
      exact ⟨hr.tracked.push '(', trivial⟩
  | openingBehind =>
      cases hm
      exact ⟨Part.tracked_empty.push '(', trivial⟩
  | tooDeep => cases hm
  | @closing p inner hs =>
      cases hm
      have htracked := hr.tracked
      rw [part, hs] at htracked
      exact ⟨htracked.push c, trivial⟩
  | groupEnd =>
      cases hm
      exact coherent_gap rfl
  | stray => cases hm
  | unmatched => cases hm

end Reading

namespace Part

theorem term_isPrefix (p : Part) : p.term <+: p.text := by
  by_cases h : Text.NoEnding (Text.trimEnd p.text)
  · rw [term_of_no_ending h]
    exact Text.trimEnd_isPrefix _
  · rcases Classical.not_forall.mp h with ⟨r, hr⟩
    rcases Classical.not_not.mp hr with ⟨front, hfront⟩
    rw [term_of_ending hfront.symm]
    apply (Text.trimEnd_isPrefix front).trans
    apply List.IsPrefix.trans _ (Text.trimEnd_isPrefix p.text)
    rw [← hfront]
    exact List.prefix_append _ _

end Part

theorem Flat.of_isPrefix {a b : List Char} (h : Flat b) (hab : a <+: b) :
    Flat a := by
  rcases hab with ⟨rest, rfl⟩
  exact h.of_append

namespace Reading

variable {l : Level} {r : Reading}

theorem flat_of_mem_finish {p : Piece} {text : List Char} (hr : r.Coherent)
    (hp : p ∈ r.finish.pieces) (hbody : p.body = .flat text) :
    Flat text := by
  rcases r with ⟨stage, negated, relation⟩
  have hholds := hr.holds
  cases stage with
  | gap => cases hp
  | word part =>
      rw [List.mem_singleton.mp hp] at hbody
      cases hbody
      exact hholds.2.2.of_isPrefix part.term_isPrefix
  | term part =>
      rw [List.mem_singleton.mp hp] at hbody
      cases hbody
      exact hholds.2.of_isPrefix part.term_isPrefix
  | group => cases hp

theorem flat_of_transition {m : Move} {c : Char} {p : Piece}
    {text : List Char} {next : Reading} (hr : r.Coherent)
    (h : Transition l r c m) (hm : m = .emit p next)
    (hbody : p.body = .flat text) : Flat text := by
  cases h with
  | @stopWord part s hs hstop =>
      cases hm
      cases hbody
      have hholds := hr.holds
      rw [hs] at hholds
      rw [Part.stopWord?_eq_some_iff] at hstop
      rcases hstop with ⟨front, hfront⟩
      rw [Part.term_of_stopWord hfront.symm]
      rw [Part.text_push, Relation.stopWord, ← List.append_assoc] at hfront
      have htext := (List.append_inj' hfront rfl).1
      apply hholds.2.of_isPrefix
      apply (Text.trimEnd_isPrefix front).trans
      rw [← htext]
      exact List.prefix_append _ _
  | groupEnd =>
      cases hm
      cases hbody
  | _ => cases hm

theorem flat_of_mem_outline {text : List Char} (hr : r.Coherent)
    {p : Piece} (hp : p ∈ (r.outline l text).pieces) {body : List Char}
    (hbody : p.body = .flat body) : Flat body := by
  have hpiece : forall body, p.body = .flat body -> Flat body := by
    apply forall_of_mem_outline (I := Coherent) _ _ _ hr hp
    · intro r c m next h hm hr
      exact coherent_of_transition h hr hm
    · intro r c p next h hr body hbody
      exact flat_of_transition hr h rfl hbody
    · intro r p hp hr body hbody
      exact flat_of_mem_finish hr hp hbody
  exact hpiece body hbody

end Reading

theorem Outline.flat_of_mem_ofLevel {l : Level} {p : Piece}
    (hp : p ∈ (ofLevel l).pieces) {body : List Char}
    (hbody : p.body = .flat body) : Flat body :=
  Reading.flat_of_mem_outline (Reading.coherent_gap rfl) hp hbody

end SearchQuery
