import SearchQuery.Proofs.Element.Scan

/-!
# Reading a query's text

The text of a legible query is read as that query again, and the text of any
other tree of legible terms as what pruning leaves of it.
-/

namespace SearchQuery

theorem Piece.joints_pieces {term : List Char -> Bool -> Except Fault Element}
    {nested : List Char -> Except Fault Query}
    {js : List (Relation × Element)}
    (h : forall x, x ∈ js ->
      (x.2.piece x.1).element? term nested = .ok (some x.2)) :
    joints term nested (js.map (fun x => x.2.piece x.1)) = .ok js := by
  induction js with
  | nil => rfl
  | cons x js ih =>
      have hx := h x List.mem_cons_self
      have hjs := ih (fun y hy => h y (List.mem_cons_of_mem x hy))
      rw [List.map_cons, joints, hx]
      simp only [hjs]
      rcases x with ⟨r, e⟩
      cases e <;> rfl

section Settings

variable {settings : Settings}

/-- Every element of a query that can be read from its piece makes the query one
that can be read from its text. -/
theorem Level.read_joined_of {l : Level} {q : Query}
    (h : q.Full Term.Legible) (hle : l.depth + q.depth ≤ l.limit)
    (htext : l.text = q.joined)
    (hread : forall e, e ∈ q.elements -> forall r,
      (e.piece r).element? (Fragment.read settings)
        (fun inner => (l.inner inner).read settings) = .ok (some e)) :
    l.read settings = .ok q := by
  rw [Level.read_eq, Outline.ofLevel_eq, htext]
  cases q with
  | nil => rfl
  | cons e rest =>
      rw [Query.joined_cons h]
      have houtline := Reading.outline_run (s := .and) h hle
      have hjoints : Piece.joints (Fragment.read settings)
          (fun inner => (l.inner inner).read settings)
          (((Relation.and, e) :: rest).map (fun x => x.2.piece x.1)) =
            .ok ((Relation.and, e) :: rest) := by
        apply Piece.joints_pieces
        intro x hx
        apply hread
        rcases List.mem_cons.mp hx with rfl | hx
        · exact List.mem_cons_self
        · exact List.mem_cons_of_mem e (List.mem_map_of_mem hx)
      rw [List.map_cons] at hjoints
      rw [houtline]
      simp only [Outline.toQuery, hjoints]
      rfl

theorem Element.element?_piece (hs : settings.catalog = .standard)
    {e : Element} (h : e.Full Term.Legible) {l : Level}
    (hle : l.depth + e.depth ≤ l.limit) (r : Relation) :
    (e.piece r).element? (Fragment.read settings)
      (fun inner => (l.inner inner).read settings) = .ok (some e) := by
  induction h generalizing l r with
  | @term t ht =>
      have helement : Fragment.element settings t.body t.negated =
          .ok (.term t) :=
        Term.element_body hs ht.address.named ht.ne_nil ht.technical
      simp only [Element.piece, Piece.element?, Fragment.read, helement]
      rfl
  | @group items negated hne hfull ih =>
      rw [Element.depth_group, ← Nat.add_assoc] at hle
      have hnested : (l.inner (Query.joined items)).read settings =
          .ok items := by
        apply Level.read_joined_of hfull hle rfl
        intro e he r
        apply ih e he
        have hdepth : e.depth ≤ Query.depth items :=
          Query.depth_le_of_mem he
        show l.depth + 1 + e.depth ≤ l.limit
        omega
      have hitems : items.isEmpty = false := by
        cases items with
        | nil => exact absurd rfl hne
        | cons => rfl
      simp only [Element.piece, Piece.element?, hnested]
      simp [Except.map, hitems]

theorem Level.read_joined (hs : settings.catalog = .standard) {l : Level}
    {q : Query} (h : q.Full Term.Legible)
    (hle : l.depth + q.depth ≤ l.limit) (htext : l.text = q.joined) :
    l.read settings = .ok q := by
  apply Level.read_joined_of h hle htext
  intro e he r
  apply Element.element?_piece hs (h e he)
  have hdepth := Query.depth_le_of_mem he
  omega

end Settings

/-!
# Trimmed texts
-/

theorem Element.not_blank_of_getLast?_chars {e : Element}
    (h : e.Full Term.Legible) {c : Char} (hc : e.chars.getLast? = some c) :
    Text.isBlank c = false := by
  cases h with
  | @term t ht =>
      rw [chars_term, List.getLast?_append] at hc
      cases hlast : t.body.getLast? with
      | none =>
          have hnil := List.getLast?_eq_none_iff.mp hlast
          exact absurd (List.append_eq_nil_iff.mp hnil).1 t.head_ne_nil
      | some d =>
          rw [hlast] at hc
          cases hc
          exact ht.not_blank_of_getLast?_body hlast
  | group hne hfull =>
      rw [chars_group_of_full (.group hne hfull), ← List.append_assoc,
        List.getLast?_concat] at hc
      cases hc
      rfl

theorem Element.trimEnd_chars {e : Element} (h : e.Full Term.Legible) :
    Text.trimEnd e.chars = e.chars := by
  rw [Text.trimEnd_eq_self_iff]
  intro c hc
  exact not_blank_of_getLast?_chars h hc

theorem Element.trimEnd_run {e : Element}
    {rest : List (Relation × Element)}
    (h : Query.Full Term.Legible (.cons e rest)) :
    Text.trimEnd (e.run rest) = e.run rest := by
  rw [Text.trimEnd_eq_self_iff]
  induction rest generalizing e with
  | nil =>
      intro c hc
      rw [run_nil] at hc
      exact not_blank_of_getLast?_chars (h e List.mem_cons_self) hc
  | cons x rest ih =>
      rcases x with ⟨r, e'⟩
      have hrest : Query.Full Term.Legible (.cons e' rest) := by
        intro a ha
        exact h a (List.mem_cons_of_mem e ha)
      have hne := chars_ne_nil (hrest e' List.mem_cons_self)
      intro c hc
      rw [run_cons, ← List.append_assoc, List.getLast?_append] at hc
      cases hlast : (e'.run rest).getLast? with
      | none =>
          have hnil := List.getLast?_eq_none_iff.mp hlast
          exact absurd (List.append_eq_nil_iff.mp hnil).1 hne
      | some d =>
          rw [hlast] at hc
          cases hc
          exact ih hrest c hlast

namespace Query

theorem chars_eq_joined {q : Query} (h : q.Full Term.Legible) :
    q.chars = q.joined := by
  cases q with
  | nil => rfl
  | cons e rest => rw [chars_eq, joined_cons h, Element.trimEnd_run h]

theorem read_chars {settings : Settings} (hs : settings.catalog = .standard)
    {q : Query} (h : q.Full Term.Legible) (hle : q.depth ≤ settings.maxDepth) :
    read settings q.chars = .ok q := by
  apply Level.read_joined hs h
  · rw [Nat.zero_add]
    exact hle
  · exact chars_eq_joined h

end Query

/-!
# Writable terms
-/

namespace Address

def Writable : Address -> Prop
  | field _ => True
  | statement index _ =>
      index ≠ "" ∧ forall c, c ∈ index.toList ->
        c.isAlphanum = true ∨ c = ':' ∨ c = '_' ∨ c = '-'
  | collection label =>
      label ≠ "" ∧ forall c, c ∈ label.toList ->
        c.isAlphanum = true ∨ c = ':' ∨ c = '.' ∨ c = '-' ∨ c = ' '
  | technical label =>
      label ≠ "" ∧ '(' ∉ label.toList ∧ ')' ∉ label.toList ∧
        '\\' ∉ label.toList ∧ Text.NoStopWord label.toList

end Address

namespace Term

/-- A term that survives the text of a query, for a reason that can be seen from
its names and its value alone. -/
structure Writable (t : Term) : Prop where
  ne_empty : t.value ≠ ""
  head : forall c, t.value.toList.head? = some c -> Text.isBlank c = false
  last : forall c, t.value.toList.getLast? = some c -> Text.isBlank c = false
  stop : Text.NoStopWord t.value.toList
  ending : Text.NoEnding t.value.toList
  address : t.address.Writable
  technical : forall label, t.address = .technical label ->
    t.value.toList.head? ≠ some '@' ∧ ¬ [']', '@'] <:+: t.value.toList

end Term

theorem Address.Writable.legible {a : Address} (h : a.Writable) :
    a.Legible := by
  apply legible_iff_wellNamed.mpr
  cases a with
  | field f => exact trivial
  | statement index subfield => exact h
  | collection label => exact h
  | technical label =>
      rcases h with ⟨hne, hopen, hclose, _, hstop⟩
      exact ⟨hne, Text.brackets_of_notMem hopen hclose false, hstop⟩

theorem Term.Writable.legible {t : Term} (h : t.Writable) : t.Legible where
  address := h.address.legible
  ne_nil := mt String.toList_eq_nil_iff.mp h.ne_empty
  last := h.last
  stop := h.stop
  ending := h.ending
  technical := by
    intro label ha
    rcases h.technical label ha with ⟨hhead, hinfix⟩
    constructor
    · intro _ rest hvalue
      rw [hvalue] at hhead
      exact absurd rfl hhead
    · intro front rest hvalue
      apply absurd _ hinfix
      rw [hvalue]
      exact ⟨front, rest, by simp⟩

namespace Query

/-- Every tree whose terms are writable is read from its text as what pruning
leaves of it. -/
theorem parse_text {q : Query} (h : forall t, t ∈ q.leaves -> t.Writable)
    (hdepth : q.prune.depth ≤ 64) : parse {} q.text = .ok q.prune := by
  have hfull : q.prune.Full Term.Legible := by
    apply full_prune
    intro t ht
    exact (h t ht).legible
  have hread : read {} q.prune.chars = .ok q.prune :=
    read_chars rfl hfull hdepth
  rw [← text_prune, parse, text, String.toList_ofList, hread]
  rfl

theorem parse_text_negated_group :
    parse {} (text (.cons (.group .nil false)
        [(.or, .group
          (.cons (.term { address := .technical "Make", value := "a (b)" })
            [(.and, .group .nil true)]) true)])) =
      .ok (.single (.group
        (.single (.term { address := .technical "Make", value := "a (b)" }))
          true)) := by
  apply parse_text (q := .cons (.group .nil false)
    [(.or, .group
      (.cons (.term { address := .technical "Make", value := "a (b)" })
        [(.and, .group .nil true)]) true)])
  · intro t ht
    have hterm : t = { address := .technical "Make", value := "a (b)" } :=
      List.mem_singleton.mp ht
    rw [hterm]
    constructor
    · decide
    · intro c hc
      cases hc
      rfl
    · intro c hc
      cases hc
      rfl
    · intro r
      cases r <;> decide
    · intro r
      cases r <;> decide
    · refine ⟨by decide, by decide, by decide, by decide, ?_⟩
      intro r
      cases r <;> decide
    · intro label _
      decide
  · decide

end Query

end SearchQuery
