import SearchQuery.Proofs.Element.Brackets
import SearchQuery.Proofs.Outline.Nesting
import SearchQuery.Proofs.Term.Reading

/-!
# Scanning the text of a query

Every element of a query is one piece in the outline of its text.  A group is one
as soon as the limit allows its depth, whatever its values are; a term has to be
legible.
-/

namespace SearchQuery

def Element.piece (r : Relation) : Element -> Piece
  | term t => ⟨r, t.negated, .flat t.body⟩
  | group items negated => ⟨r, negated, .bracketed (Query.joined items)⟩

namespace Reading

variable {l : Level} {s : Relation}

theorem outline_negation (negated : Bool) (text : List Char) :
    Reading.outline l { relation := s } (negation negated ++ text) =
      Reading.outline l { relation := s, negated := negated } text := by
  cases negated with
  | false => rfl
  | true =>
      have hkeyword := outline_keyword (l := l)
        (show ({ relation := s } : Reading).stage = .gap from rfl)
        (show Text.isBlank ' ' = true by decide) .not text
      exact hkeyword

theorem outline_joint (r : Relation) (text : List Char) :
    Reading.outline l { relation := s } (r.stopWord ++ text) =
      Reading.outline l { relation := r } text := by
  have hsplit : r.stopWord ++ text =
      [' '] ++ ((Keyword.relation r).word.toList ++ ' ' :: text) := by
    simp [Relation.stopWord, Relation.ending, Keyword.word]
  have hblanks : forall c, c ∈ [' '] -> Text.isBlank c = true := by
    intro c hc
    rw [List.mem_singleton.mp hc]
    decide
  rw [hsplit, outline_blanks rfl hblanks, outline_keyword rfl rfl]
  rfl

theorem outline_group_chars {items : Chain Element} {negated : Bool}
    (h : (Element.group items negated).Full (fun t => t.address.Legible))
    (hle : l.depth + (Element.group items negated).depth ≤ l.limit)
    (text : List Char) :
    Reading.outline l { relation := s }
        ((Element.group items negated).chars ++ text) =
      (Reading.outline l { relation := s } text).cons
        ((Element.group items negated).piece s) := by
  have hsplit : (Element.group items negated).chars ++ text =
      negation negated ++ ('(' :: Query.joined items ++ ')' :: text) := by
    rw [Element.chars_group_of_full h]
    simp
  cases h with
  | group _ hfull =>
      have hnested := Query.nested_joined hfull
      rw [Element.depth_group, ← Nat.add_assoc] at hle
      rw [hsplit, outline_negation,
        outline_group rfl (hnested.nestsWithin (Nat.le_refl _)) hle
          hnested.escaped]
      rfl

theorem outline_chars_stopWord {e : Element} (h : e.Full Term.Legible)
    (hle : l.depth + e.depth ≤ l.limit) (r : Relation) (text : List Char) :
    Reading.outline l { relation := s } (e.chars ++ (r.stopWord ++ text)) =
      (Reading.outline l { relation := r } text).cons (e.piece s) := by
  have haddress := h.of_leaves
    (fun t ht => (h.of_mem_leaves ht).address)
  cases h with
  | @term t ht =>
      rw [Element.chars_term, List.append_assoc, outline_negation,
        ← List.append_assoc,
        outline_flat_stopWord rfl ht.flat_body _ _ ht.trimEnd_body
          ht.noEnding_body]
      · rfl
      · intro hnil
        exact t.head_ne_nil (List.append_eq_nil_iff.mp hnil).1
      · exact t.ofWord?_firstWord_head_append _
  | group =>
      rw [outline_group_chars haddress hle, outline_joint]

theorem outline_chars_end {e : Element} (h : e.Full Term.Legible)
    (hle : l.depth + e.depth ≤ l.limit) :
    Reading.outline l { relation := s } e.chars = ⟨[e.piece s], none⟩ := by
  have haddress := h.of_leaves
    (fun t ht => (h.of_mem_leaves ht).address)
  cases h with
  | @term t ht =>
      rw [Element.chars_term, outline_negation,
        outline_flat_end rfl ht.flat_body _ ht.trimEnd_body ht.noEnding_body]
      · rfl
      · intro hnil
        exact t.head_ne_nil (List.append_eq_nil_iff.mp hnil).1
  | @group items negated =>
      have houtline := outline_group_chars (s := s) haddress hle []
      rw [List.append_nil] at houtline
      exact houtline

/-- The outline of a query's text has the elements of the query as its
pieces. -/
theorem outline_run {e : Element} {rest : List (Relation × Element)}
    (h : Query.Full Term.Legible (.cons e rest))
    (hle : l.depth + Query.depth (.cons e rest) ≤ l.limit) :
    Reading.outline l { relation := s } (e.run rest) =
      ⟨e.piece s :: rest.map (fun x => x.2.piece x.1), none⟩ := by
  induction rest generalizing e s with
  | nil =>
      have he := h e List.mem_cons_self
      rw [Query.depth_cons] at hle
      rw [Element.run_nil]
      exact outline_chars_end he (by omega)
  | cons x rest ih =>
      rcases x with ⟨r, e'⟩
      have he := h e List.mem_cons_self
      have hrest : Query.Full Term.Legible (.cons e' rest) := by
        intro a ha
        exact h a (List.mem_cons_of_mem e ha)
      rw [Query.depth_cons_cons] at hle
      rw [Element.run_cons, outline_chars_stopWord he (by omega),
        ih hrest (by omega)]
      rfl

end Reading

end SearchQuery
