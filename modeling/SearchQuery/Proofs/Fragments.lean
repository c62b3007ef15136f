import SearchQuery.Proofs.Coverage
import SearchQuery.Proofs.Outline.Place
import SearchQuery.Proofs.Outline.Simulation

/-!
# Fragments of a text

A fragment that is handed on to be read as a term is always one flat term.  The pass
over the characters sees to that: a fragment is cut off with the part it is in, and
nothing of that part is left in any flag when the next one begins.
-/

namespace SearchQuery

theorem Part.trimEnd_term (p : Part) : Text.trimEnd p.term = p.term := by
  by_cases hend : Text.NoEnding (Text.trimEnd p.text)
  · rw [term_of_no_ending hend, Text.trimEnd_trimEnd]
  · rcases Classical.not_forall.mp hend with ⟨r, hr⟩
    rcases Classical.not_not.mp hr with ⟨front, hfront⟩
    rw [term_of_ending hfront.symm, Text.trimEnd_trimEnd]

theorem Outline.trimEnd_of_mem_ofLevel {l : Level} {p : Piece}
    (hp : p ∈ (ofLevel l).pieces) {text : List Char}
    (hbody : p.body = .flat text) : Text.trimEnd text = text := by
  have hpiece : forall text, p.body = .flat text ->
      Text.trimEnd text = text := by
    apply Reading.forall_of_mem_outline (I := fun _ => True) _ _ _ trivial hp
    · intro r c m next h hm hr
      trivial
    · intro r c p next h hr text hbody
      generalize hm : Move.emit p next = m at h
      cases h with
      | @stopWord part s hs hstop =>
          cases hm
          cases hbody
          exact (part.push c).trimEnd_term
      | groupEnd =>
          cases hm
          cases hbody
      | _ => cases hm
    · intro r p hp hr text hbody
      rcases r with ⟨_ | part | part | _, negated, relation⟩
      · cases hp
      · rw [List.mem_singleton.mp hp] at hbody
        cases hbody
        exact part.trimEnd_term
      · rw [List.mem_singleton.mp hp] at hbody
        cases hbody
        exact part.trimEnd_term
      · cases hp
  exact hpiece text hbody

/-!
# Where fragments come from
-/

theorem Piece.exists_of_mem_traceJoints
    {term : List Char -> Bool -> Except Fault Element}
    {f : List Char -> Traced Query} {pieces : List Piece} {x : Handed}
    (h : x ∈ (traceJoints term f pieces).handed) :
    exists p, p ∈ pieces ∧ x ∈ (p.traceElement term f).handed := by
  induction pieces with
  | nil => cases h
  | cons p rest ih =>
      cases hresult : (p.traceElement term f).result with
      | error fault =>
          rw [traceJoints, Traced.bind_of_error hresult] at h
          exact ⟨p, List.mem_cons_self, h⟩
      | ok e? =>
          rw [handed_traceJoints_cons hresult] at h
          rcases List.mem_append.mp h with h | h
          · exact ⟨p, List.mem_cons_self, h⟩
          · rcases ih h with ⟨p', hp', hx⟩
            exact ⟨p', List.mem_cons_of_mem p hp', hx⟩

theorem Level.exists_of_mem_trace {settings : Settings} {l : Level} {x : Handed}
    (h : x ∈ (l.trace settings).handed) :
    exists l' p, p ∈ (Outline.ofLevel l').pieces ∧ p.body = .flat x.text := by
  induction l using Level.induction with
  | step l ih =>
      rw [handed_trace] at h
      rcases Piece.exists_of_mem_traceJoints h with ⟨⟨r, n, body⟩, hp, hx⟩
      cases body with
      | flat text =>
          rw [List.mem_singleton.mp hx]
          exact ⟨l, _, hp, rfl⟩
      | bracketed inner => exact ih _ hp inner rfl hx

/-!
# Flat fragments
-/

/-- Some text without blanks at its ends, without brackets that count and without
stop words.  It begins with a reserved word only if it is nothing else. -/
structure Handed.IsFlat (x : Handed) : Prop where
  ne_nil : x.text ≠ []
  head : forall c, x.text.head? = some c -> Text.isBlank c = false
  last : forall c, x.text.getLast? = some c -> Text.isBlank c = false
  brackets : Text.brackets false x.text = []
  stop : Text.NoStopWord x.text
  word : forall k, Keyword.ofWord? (Text.firstWord x.text) = some k ->
    x.text = k.word.toList

theorem Level.isFlat_of_mem_trace {settings : Settings} {l : Level} {x : Handed}
    (h : x ∈ (l.trace settings).handed) : x.IsFlat := by
  rcases exists_of_mem_trace h with ⟨l', p, hp, hbody⟩
  have hflat := Outline.flat_of_mem_ofLevel hp hbody
  have htrim := Outline.trimEnd_of_mem_ofLevel hp hbody
  constructor
  · exact Outline.ne_nil_of_mem_ofLevel hp hbody
  · exact hflat.head
  · exact Text.trimEnd_eq_self_iff.mp htrim
  · exact hflat.brackets
  · exact hflat.stop
  · intro k hk
    cases hany : x.text.any Text.isBlank with
    | true =>
        rw [hflat.word hany] at hk
        cases hk
    | false =>
        rw [Text.firstWord_of_no_blank hany] at hk
        exact Keyword.ofWord?_eq_some_iff.mp hk

namespace Query

/-- Every fragment of a text that is handed on, at any level, is one flat term.  The
pass over a level that makes this so keeps flags, and where its part is empty no
bracket and no backslash is left in them. -/
theorem flat_of_handed (settings : Settings) (text : String) :
    (forall x, x ∈ (trace settings text.toList).handed -> x.IsFlat) ∧
    forall l, Scanner.outline l = Outline.ofLevel l ∧
      forall done s, (Scanner.run l {} done).2 = .ok s -> s.part = [] ->
        s.escaped = false ∧ s.depth = 0 ∧ s.inBracket = false := by
  refine ⟨fun x hx => Level.isFlat_of_mem_trace hx, ?_⟩
  intro l
  refine ⟨Scanner.outline_eq l, ?_⟩
  intro done s hrun hpart
  rw [Scanner.eq_of_part_eq_nil hrun hpart]
  exact ⟨rfl, rfl, rfl⟩

theorem flat_of_handed_word :
    (trace {} "NOT x\\(  AND (y OR OR) z AND ".toList).handed =
        [⟨"x\\(".toList, true⟩, ⟨"y".toList, false⟩, ⟨"OR".toList, false⟩,
          ⟨"z".toList, false⟩] ∧
      Handed.IsFlat ⟨"OR".toList, false⟩ ∧
      (Scanner.run { text := "(x\\)) OR NOT y".toList, limit := 1 } {}
          "(x\\)) OR NOT ".toList).2 =
        .ok { negated := true, relation := .or } ∧
      ({ negated := true, relation := .or } : Scanner).escaped = false := by
  have hhanded : (trace {} "NOT x\\(  AND (y OR OR) z AND ".toList).handed =
      [⟨"x\\(".toList, true⟩, ⟨"y".toList, false⟩, ⟨"OR".toList, false⟩,
        ⟨"z".toList, false⟩] := rfl
  have hrun : (Scanner.run { text := "(x\\)) OR NOT y".toList, limit := 1 } {}
      "(x\\)) OR NOT ".toList).2 =
        .ok { negated := true, relation := .or } := rfl
  rcases flat_of_handed {} "NOT x\\(  AND (y OR OR) z AND " with
    ⟨hflat, hscan⟩
  refine ⟨hhanded, ?_, hrun, ((hscan _).2 _ _ hrun rfl).1⟩
  apply hflat
  rw [hhanded]
  decide

end Query

end SearchQuery
