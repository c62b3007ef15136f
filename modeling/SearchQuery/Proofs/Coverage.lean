import SearchQuery.Proofs.Outline.Nesting
import SearchQuery.Proofs.Term.Fragment
import SearchQuery.Proofs.Trace

/-!
# Coverage of the text

Every character of a text that is read belongs to one of the fragments handed on
or to a gap between them, and a gap is made of blanks, brackets that count and
reserved words.  The leaves of the query are those of the fragments, in the same
order.
-/

namespace SearchQuery

/-- A text of blanks, brackets that count and reserved words, given whether its
first character is escaped. -/
inductive Gap : Bool -> List Char -> Prop where
  | nil {escaped : Bool} : Gap escaped []
  | blank {escaped : Bool} {c : Char} {rest : List Char} :
      Text.isBlank c = true -> Gap false rest -> Gap escaped (c :: rest)
  | bracket {c : Char} {rest : List Char} :
      c = '(' ∨ c = ')' -> Gap false rest -> Gap false (c :: rest)
  | word {escaped : Bool} {rest : List Char} (k : Keyword) :
      Gap false rest -> Gap escaped (k.word.toList ++ rest)

/-- A text that is made of given fragments, in their order, and of gaps in front
of, between and behind them. -/
inductive Woven : Bool -> List (List Char) -> List Char -> Prop where
  | gap {escaped : Bool} {gap : List Char} :
      Gap escaped gap -> Woven escaped [] gap
  | fragment {escaped : Bool} {g f rest : List Char}
      {fragments : List (List Char)} :
      Gap escaped g ->
      Woven (Text.escapedAfter escaped (g ++ f)) fragments rest ->
      Woven escaped (f :: fragments) (g ++ (f ++ rest))

namespace Gap

theorem ne_backslash_of_blank {c : Char} (h : Text.isBlank c = true) :
    c ≠ '\\' := by
  intro heq
  rcases heq with rfl
  cases h

theorem escapedAfter_word (k : Keyword) (escaped : Bool) :
    Text.escapedAfter escaped k.word.toList = false := by
  rcases k with _ | ⟨_ | _⟩ <;> cases escaped <;> decide

theorem append {escaped : Bool} {a b : List Char} (ha : Gap escaped a)
    (hb : Gap (Text.escapedAfter escaped a) b) : Gap escaped (a ++ b) := by
  induction ha with
  | nil => exact hb
  | blank hc _ ih =>
      rw [Text.escapedAfter_cons,
        Text.escapesNext_of_ne (ne_backslash_of_blank hc)] at hb
      exact blank hc (ih hb)
  | bracket hc _ ih =>
      have hne := hc
      rw [Text.escapedAfter_cons, Text.escapesNext_of_ne] at hb
      · exact bracket hc (ih hb)
      · rcases hc with rfl | rfl <;> decide
  | word k _ ih =>
      rw [Text.escapedAfter_append, escapedAfter_word] at hb
      rw [List.append_assoc]
      exact word k (ih hb)

theorem blanks_append {blanks rest : List Char}
    (h : forall c, c ∈ blanks -> Text.isBlank c = true)
    (hrest : forall escaped, Gap escaped rest) (escaped : Bool) :
    Gap escaped (blanks ++ rest) := by
  induction blanks generalizing escaped with
  | nil => exact hrest escaped
  | cons c blanks ih =>
      apply blank (h c List.mem_cons_self)
      apply ih
      intro d hd
      exact h d (List.mem_cons_of_mem c hd)

theorem blanks {blanks : List Char}
    (h : forall c, c ∈ blanks -> Text.isBlank c = true) (escaped : Bool) :
    Gap escaped blanks := by
  rw [← List.append_nil blanks]
  exact blanks_append h (fun _ => nil) escaped

theorem exists_of_term (p : Part) :
    exists tail, p.text = p.term ++ tail ∧
      forall escaped, Gap escaped tail := by
  rcases Text.exists_blanks p.text with ⟨behind, htext, hbehind⟩
  by_cases h : Text.NoEnding (Text.trimEnd p.text)
  · rw [Part.term_of_no_ending h]
    exact ⟨behind, htext, blanks hbehind⟩
  · rcases Classical.not_forall.mp h with ⟨r, hr⟩
    rcases Classical.not_not.mp hr with ⟨front, hfront⟩
    rcases Text.exists_blanks front with ⟨before, hbefore, hblanks⟩
    rw [Part.term_of_ending hfront.symm]
    refine ⟨before ++ (' ' :: (r.keyword.toList ++ behind)), ?_, ?_⟩
    · rw [htext, ← hfront, ← List.append_assoc, ← hbefore]
      simp [Relation.ending]
    · apply blanks_append hblanks
      intro escaped
      exact blank rfl (word (.relation r) (blanks hbehind false))

end Gap

namespace Woven

variable {escaped : Bool} {fs gs : List (List Char)} {a b : List Char}

theorem prepend (ha : Gap escaped a)
    (hb : Woven (Text.escapedAfter escaped a) fs b) :
    Woven escaped fs (a ++ b) := by
  cases hb with
  | gap hgap => exact gap (ha.append hgap)
  | @fragment _ g f rest fs hgap hrest =>
      rw [← Text.escapedAfter_append, ← List.append_assoc] at hrest
      rw [← List.append_assoc]
      exact fragment (ha.append hgap) hrest

theorem append (ha : Woven escaped fs a)
    (hb : Woven (Text.escapedAfter escaped a) gs b) :
    Woven escaped (fs ++ gs) (a ++ b) := by
  induction ha with
  | gap hgap => exact prepend hgap hb
  | fragment hgap _ ih =>
      rw [← List.append_assoc, Text.escapedAfter_append] at hb
      rw [List.append_assoc, List.append_assoc]
      exact fragment hgap (ih hb)

theorem start {f : List Char}
    (h : Woven (Text.escapedAfter escaped f) fs a) :
    Woven escaped (f :: fs) (f ++ a) :=
  fragment (g := []) Gap.nil h

theorem blank {c : Char} (hc : Text.isBlank c = true)
    (h : Woven false fs a) : Woven escaped fs (c :: a) := by
  apply prepend (a := [c]) (Gap.blank hc Gap.nil)
  rwa [Text.escapedAfter_cons,
    Text.escapesNext_of_ne (Gap.ne_backslash_of_blank hc)]

theorem bracket {c : Char} (hc : c = '(' ∨ c = ')')
    (h : Woven false fs a) : Woven false fs (c :: a) := by
  apply prepend (a := [c]) (Gap.bracket hc Gap.nil)
  rw [Text.escapedAfter_cons, Text.escapesNext_of_ne]
  · exact h
  · rcases hc with rfl | rfl <;> decide

theorem word (k : Keyword) (h : Woven false fs a) :
    Woven escaped fs (k.word.toList ++ a) := by
  rw [← List.append_nil k.word.toList]
  apply prepend (Gap.word k Gap.nil)
  rwa [List.append_nil, Gap.escapedAfter_word]

theorem gap_of_nil (h : Woven escaped [] a) : Gap escaped a := by
  cases h with
  | gap hgap => exact hgap

end Woven

def Body.fragments (nested : List Char -> List (List Char)) :
    Body -> List (List Char)
  | flat text => [text]
  | bracketed inner => nested inner

namespace Reading

variable {l : Level} {r : Reading} {c : Char} {rest : List Char}
  {fragments : List (List Char)} {nested : List Char -> List (List Char)}

theorem woven_of_go {next : Reading}
    (h : Transition l r c (.go next))
    (hnext : Woven false fragments (next.part.text ++ rest)) :
    Woven false fragments (r.part.text ++ c :: rest) := by
  generalize hm : Move.go next = m at h
  cases h with
  | skip hs hblank =>
      cases hm
      simp only [part, hs] at hnext ⊢
      exact Woven.blank hblank hnext
  | @keyword p k hs hblank hk =>
      cases hm
      have htext := Keyword.ofWord?_eq_some_iff.mp hk
      simp only [part, hs, htext]
      apply Woven.word k
      apply Woven.blank hblank
      cases k <;> exact hnext
  | grow ho hc hgrows =>
      cases hm
      rw [(openBrackets_of_grows hgrows).2, Part.text_push,
        List.append_assoc] at hnext
      exact hnext
  | stopWord => cases hm
  | opening hopens =>
      cases hm
      have hc := Text.eq_of_bracket?_opening (Part.opens_eq_true_iff.mp hopens)
      rw [hc]
      simp only [part, Part.text_push, List.append_assoc] at hnext
      exact hnext
  | @openingBehind p k hs hopens hk =>
      cases hm
      have hc := Text.eq_of_bracket?_opening (Part.opens_eq_true_iff.mp hopens)
      have htext := Keyword.ofWord?_eq_some_iff.mp hk
      simp only [part, hs, htext, hc]
      exact Woven.word k hnext
  | tooDeep => cases hm
  | @closing p inner hs hcloses =>
      cases hm
      simp only [part, Part.text_push, List.append_assoc] at hnext
      simp only [part, hs]
      exact hnext
  | groupEnd => cases hm
  | stray => cases hm
  | unmatched => cases hm

theorem woven_of_emit {next : Reading} {p : Piece} (hr : r.Coherent)
    (hbracketed : forall inner, p.body = .bracketed inner ->
      Woven false (nested inner) inner)
    (h : Transition l r c (.emit p next))
    (hnext : Woven false fragments (next.part.text ++ rest)) :
    Woven false (p.body.fragments nested ++ fragments)
      (r.part.text ++ c :: rest) := by
  generalize hm : Move.emit p next = m at h
  cases h with
  | skip => cases hm
  | keyword => cases hm
  | grow => cases hm
  | @stopWord part s hs hstop =>
      cases hm
      -- What the stop word and the blanks in front of it take off is a gap.
      rcases Gap.exists_of_term (part.push c) with ⟨tail, htext, htail⟩
      have hflag : Text.escapedAfter false (part.push c).text = false := by
        rw [Part.stopWord?_eq_some_iff, Part.text_push,
          Text.stopWord_suffix_concat_iff] at hstop
        rw [Part.text_push, hstop.1]
        exact Text.escapedAfter_concat (by decide) false part.text
      have hsplit : part.text ++ c :: rest =
          (part.push c).term ++ (tail ++ rest) := by
        rw [← List.append_assoc, ← htext, Part.text_push, List.append_assoc]
        rfl
      simp only [Reading.part, hs]
      rw [piece, Body.fragments, hsplit]
      apply Woven.start
      apply Woven.prepend (htail _)
      rw [← Text.escapedAfter_append, ← htext, hflag]
      exact hnext
  | opening => cases hm
  | openingBehind => cases hm
  | tooDeep => cases hm
  | closing => cases hm
  | @groupEnd part inner hs hcloses htext =>
      cases hm
      have htracked := hr.tracked
      simp only [Reading.part, hs] at htracked ⊢
      have hbracket := Part.closes_eq_true_iff.mp hcloses
      have hc := Text.eq_of_bracket?_closing hbracket
      -- The bracket that ends a group counts, so that its inside leaves nothing
      -- escaped behind it.
      have hflag : Text.escapedAfter false inner = false := by
        have hescaped : part.escaped = false := by
          cases hescaped : part.escaped with
          | false => rfl
          | true =>
              rw [hescaped] at hbracket
              cases hbracket
        rw [htracked, htext] at hescaped
        exact hescaped
      rw [htext, hc, List.cons_append]
      apply Woven.bracket (Or.inl rfl)
      apply Woven.append (hbracketed inner rfl)
      rw [hflag]
      exact Woven.bracket (Or.inr rfl) hnext
  | stray => cases hm
  | unmatched => cases hm

theorem woven_of_finish (h : r.finish.fault? = none) :
    Woven false (r.finish.pieces.flatMap (fun p => p.body.fragments nested))
      r.part.text := by
  have hterm : forall p : Part, Woven false [p.term] p.text := by
    intro p
    rcases Gap.exists_of_term p with ⟨tail, htext, htail⟩
    rw [htext]
    exact Woven.start (Woven.gap (htail _))
  rcases r with ⟨stage, negated, relation⟩
  cases stage with
  | gap => exact Woven.gap Gap.nil
  | word part =>
      simp only [finish, piece, List.flatMap_cons, List.flatMap_nil]
      exact hterm part
  | term part =>
      simp only [finish, piece, List.flatMap_cons, List.flatMap_nil]
      exact hterm part
  | group => cases h

theorem woven_of_outline {text : List Char}
    (hr : r.Coherent) (hfault : (r.outline l text).fault? = none)
    (hbracketed : forall p, p ∈ (r.outline l text).pieces ->
      forall inner, p.body = .bracketed inner ->
        Woven false (nested inner) inner) :
    Woven false
      ((r.outline l text).pieces.flatMap (fun p => p.body.fragments nested))
      (r.part.text ++ text) := by
  induction text generalizing r with
  | nil =>
      rw [List.append_nil]
      exact woven_of_finish hfault
  | cons c rest ih =>
      have htransition := transition_step l r c
      rw [outline_cons] at hfault hbracketed ⊢
      cases hstep : r.step l c with
      | go next =>
          rw [hstep] at hfault hbracketed htransition
          have hnext := coherent_of_transition htransition hr rfl
          exact woven_of_go htransition (ih hnext hfault hbracketed)
      | emit p next =>
          rw [hstep] at hfault hbracketed htransition
          have hnext := coherent_of_transition htransition hr rfl
          have hrest := ih hnext hfault
            (fun q hq => hbracketed q (List.mem_cons_of_mem p hq))
          exact woven_of_emit hr (hbracketed p List.mem_cons_self)
            htransition hrest
      | stop fault =>
          rw [hstep] at hfault
          cases hfault

end Reading

/-!
# Fragments of a trace
-/

namespace Handed

variable {term : List Char -> Bool -> Except Fault Element}
  {handed handed' : List Handed} {leaves leaves' : List Term}

def ReadAs (term : List Char -> Bool -> Except Fault Element)
    (handed : List Handed) (leaves : List Term) : Prop :=
  exists es : List Element,
    handed.map (fun x => term x.text x.negated) = es.map Except.ok ∧
      leaves = es.flatMap Element.leaves

theorem ReadAs.append (h : ReadAs term handed leaves)
    (h' : ReadAs term handed' leaves') :
    ReadAs term (handed ++ handed') (leaves ++ leaves') := by
  rcases h with ⟨es, hread, rfl⟩
  rcases h' with ⟨es', hread', rfl⟩
  refine ⟨es ++ es', ?_, ?_⟩
  · rw [List.map_append, hread, hread', List.map_append]
  · rw [List.flatMap_append]

end Handed

namespace Piece

variable {term : List Char -> Bool -> Except Fault Element}
  {f : List Char -> Traced Query} {pieces : List Piece}
  {js : List (Relation × Element)}

theorem handed_traceJoints
    (h : joints term (fun inner => (f inner).result) pieces = .ok js) :
    (traceJoints term f pieces).handed =
      pieces.flatMap (fun p => (p.traceElement term f).handed) := by
  induction pieces generalizing js with
  | nil => rfl
  | cons p rest ih =>
      rcases joints_cons_eq_ok_iff.mp h with ⟨e?, tail, he, htail, _⟩
      rw [← result_traceElement] at he
      rw [handed_traceJoints_cons he, ih htail, List.flatMap_cons]

theorem exists_of_mem_joints {nested : List Char -> Except Fault Query}
    (h : joints term nested pieces = .ok js) {p : Piece} (hp : p ∈ pieces) :
    exists e?, p.element? term nested = .ok e? := by
  induction pieces generalizing js with
  | nil => cases hp
  | cons p' rest ih =>
      rcases joints_cons_eq_ok_iff.mp h with ⟨e?, tail, he, htail, _⟩
      rcases List.mem_cons.mp hp with rfl | hp
      · exact ⟨e?, he⟩
      · exact ih htail hp

theorem readAs_traceElement {p : Piece} {e? : Option Element}
    (h : p.element? term (fun inner => (f inner).result) = .ok e?)
    (hnested : forall inner, p.body = .bracketed inner ->
      forall q, (f inner).result = .ok q ->
        Handed.ReadAs term (f inner).handed q.leaves) :
    Handed.ReadAs term (p.traceElement term f).handed
      (e?.elim [] Element.leaves) := by
  rcases p with ⟨r, negated, text | inner⟩
  · rcases element?_flat.mp h with ⟨e, hread, rfl⟩
    refine ⟨[e], ?_, ?_⟩
    · simp [traceElement, hread]
    · simp
  · rcases element?_bracketed.mp h with ⟨q, hq, rfl⟩
    rcases hnested inner rfl q hq with ⟨es, hread, hleaves⟩
    refine ⟨es, hread, ?_⟩
    rw [← hleaves]
    cases q with
    | nil => rfl
    | cons first rest => exact Element.leaves_group _ _

/-- The leaves of pieces are those of the elements that the fragments handed on
are read as. -/
theorem readAs_traceJoints
    (h : joints term (fun inner => (f inner).result) pieces = .ok js)
    (hnested : forall p, p ∈ pieces -> forall inner,
      p.body = .bracketed inner -> forall q, (f inner).result = .ok q ->
        Handed.ReadAs term (f inner).handed q.leaves) :
    Handed.ReadAs term (traceJoints term f pieces).handed
      (js.flatMap (fun x => x.2.leaves)) := by
  induction pieces generalizing js with
  | nil =>
      cases h
      exact ⟨[], rfl, rfl⟩
  | cons p rest ih =>
      rcases joints_cons_eq_ok_iff.mp h with ⟨e?, tail, he, htail, rfl⟩
      have hfirst := readAs_traceElement he (hnested p List.mem_cons_self)
      have hrest := ih htail
        (fun p' hp' => hnested p' (List.mem_cons_of_mem p hp'))
      have hleaves : ((e?.map (fun e => (p.relation, e))).toList ++ tail).flatMap
          (fun x => x.2.leaves) =
            e?.elim [] Element.leaves ++ tail.flatMap (fun x => x.2.leaves) := by
        rw [List.flatMap_append]
        cases e? <;> simp
      rw [← result_traceElement] at he
      rw [handed_traceJoints_cons he, hleaves]
      exact hfirst.append hrest

end Piece

namespace Level

variable {settings : Settings} {l : Level} {q : Query}

theorem exists_joints_of_read (h : l.read settings = .ok q) :
    exists js, Piece.joints (Fragment.read settings)
        (fun inner => ((l.inner inner).trace settings).result)
        (Outline.ofLevel l).pieces = .ok js ∧
      (Outline.ofLevel l).fault? = none ∧ q = Chain.ofJoints js := by
  rcases read_eq_ok_iff.mp h with ⟨js, hjs, hfault, hq⟩
  refine ⟨js, ?_, hfault, hq⟩
  simp only [result_trace]
  exact hjs

theorem woven_trace (h : l.read settings = .ok q) :
    Woven false ((l.trace settings).handed.map Handed.text) l.text := by
  induction l using Level.induction generalizing q with
  | step l ih =>
      rcases exists_joints_of_read h with ⟨js, hjs, hfault, _⟩
      have hhanded : (l.trace settings).handed.map Handed.text =
          (Outline.ofLevel l).pieces.flatMap (fun p => p.body.fragments
            (fun inner =>
              ((l.inner inner).trace settings).handed.map Handed.text)) := by
        rw [handed_trace, Piece.handed_traceJoints hjs, List.map_flatMap]
        congr 1
        funext p
        rcases p with ⟨r, negated, text | inner⟩
        · rfl
        · rfl
      rw [hhanded]
      apply Reading.woven_of_outline (r := {}) (Reading.coherent_gap rfl) hfault
      intro p hp inner heq
      rcases p with ⟨r, negated, body⟩
      rcases heq with rfl
      rcases Piece.exists_of_mem_joints hjs hp with ⟨e?, he⟩
      rcases Piece.element?_bracketed.mp he with ⟨q', hq', _⟩
      rw [result_trace] at hq'
      exact ih _ hp inner rfl hq'

theorem readAs_trace (h : l.read settings = .ok q) :
    Handed.ReadAs (Fragment.read settings) (l.trace settings).handed
      q.leaves := by
  -- On the level, with those of the groups in it for what brackets enclose.
  induction l using Level.induction generalizing q with
  | step l ih =>
      rcases exists_joints_of_read h with ⟨js, hjs, _, rfl⟩
      rw [handed_trace, Query.leaves, Chain.elements_ofJoints,
        List.flatMap_map]
      apply Piece.readAs_traceJoints hjs
      intro p hp inner hbody q' hq'
      rw [result_trace] at hq'
      exact ih p hp inner hbody hq'

theorem gap_of_read_nil (h : l.read settings = .ok .nil) :
    Gap false l.text := by
  have hwoven := woven_trace h
  rcases readAs_trace h with ⟨es, hread, hleaves⟩
  cases es with
  | nil =>
      rw [List.map_eq_nil_iff.mp hread] at hwoven
      exact hwoven.gap_of_nil
  | cons e es =>
      cases hhanded : (l.trace settings).handed with
      | nil =>
          rw [hhanded] at hread
          cases hread
      | cons x handed =>
          rw [hhanded, List.map_cons, List.map_cons] at hread
          injection hread with hfirst _
          have hne := Fragment.leaves_ne_nil_of_read hfirst
          have hnil : e.leaves ++ es.flatMap Element.leaves = [] := hleaves.symm
          exact absurd (List.append_eq_nil_iff.mp hnil).1 hne

end Level

namespace Query

def trace (settings : Settings) (text : List Char) : Traced Query :=
  Level.trace settings { text := text, limit := settings.maxDepth }

/-- Nothing of a text that is parsed is lost, repeated or reordered. -/
theorem woven_of_parse {settings : Settings} {text : String} {q : Query}
    (h : parse settings text = .ok q) :
    (trace settings text.toList).result = .ok q ∧
      Woven false ((trace settings text.toList).handed.map Handed.text)
        text.toList ∧
      (exists es : List Element, (trace settings text.toList).handed.map
          (fun x => Fragment.read settings x.text x.negated) =
            es.map Except.ok ∧
        q.leaves = es.flatMap Element.leaves) ∧
      forall l : Level, l.read settings = .ok .nil -> Gap false l.text := by
  have hread := parse_eq_ok_iff.mp h
  refine ⟨?_, Level.woven_trace hread, Level.readAs_trace hread, ?_⟩
  · exact (Level.result_trace settings _).trans hread
  · intro l
    exact Level.gap_of_read_nil

theorem woven_of_parse_dropped :
    parse {} "NOT (title=a ) OR ( )" = .ok (.single (.group (.single
        (.term { address := .field .title, value := "a" })) true)) ∧
      Woven false ["title=a".toList] "NOT (title=a ) OR ( )".toList := by
  have h : parse {} "NOT (title=a ) OR ( )" = .ok (.single (.group (.single
      (.term { address := .field .title, value := "a" })) true)) := rfl
  exact ⟨h, (woven_of_parse h).2.1⟩

end Query

end SearchQuery
