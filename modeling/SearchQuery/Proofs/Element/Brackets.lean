import SearchQuery.Proofs.Element.Leaves
import SearchQuery.Proofs.Term.Legible

/-!
# Brackets of a query

The brackets that count in the text of a query are those of its groups, so they
nest exactly as deep as its tree.
-/

namespace SearchQuery

namespace Element

theorem chars_term (t : Term) :
    (term t).chars = negation t.negated ++ t.body := by
  rw [chars, charsWith_term, t.charsWith_escape]

end Element

namespace Query

/-- The text of a query with the blanks at its end. -/
def joined (q : Query) : List Char :=
  (q.map Element.chars).joinChars

theorem chars_eq (q : Query) : q.chars = Text.trimEnd q.joined := rfl

theorem joined_ne_nil {q : Query} (hne : q ≠ .nil)
    (h : forall e, e ∈ q.elements -> e.chars ≠ []) : q.joined ≠ [] := by
  rw [joined, Ne, Chain.joinChars_eq_nil_iff, Chain.elements_map]
  intro hall
  cases q with
  | nil => exact hne rfl
  | cons e rest =>
      have he : e ∈ (Chain.cons e rest).elements := List.mem_cons_self
      exact h e he (hall e.chars (List.mem_map_of_mem he))

end Query

namespace Element

theorem chars_group {items : Chain Element} (negated : Bool)
    (h : Query.joined items ≠ []) :
    (group items negated).chars =
      negation negated ++ ('(' :: Query.joined items ++ [')']) := by
  rw [chars, charsWith_group]
  split
  next hnil => exact absurd hnil h
  next => exact List.append_assoc _ _ _

theorem chars_ne_nil {P : Term -> Prop} {e : Element} (h : e.Full P) :
    e.chars ≠ [] := by
  induction h with
  | @term t _ =>
      rw [chars_term]
      intro hnil
      have hbody := (List.append_eq_nil_iff.mp hnil).2
      exact t.head_ne_nil (List.append_eq_nil_iff.mp hbody).1
  | @group items negated hne _ ih =>
      rw [chars_group negated (Query.joined_ne_nil hne ih)]
      simp

theorem chars_group_of_full {P : Term -> Prop} {items : Chain Element}
    {negated : Bool} (h : (group items negated).Full P) :
    (group items negated).chars =
      negation negated ++ ('(' :: Query.joined items ++ [')']) := by
  cases h with
  | group hne hfull =>
      apply chars_group
      apply Query.joined_ne_nil hne
      intro e he
      exact chars_ne_nil (hfull e he)

def run (e : Element) (rest : List (Relation × Element)) : List Char :=
  e.chars ++ rest.flatMap (fun l => l.1.stopWord ++ l.2.chars)

@[simp] theorem run_nil (e : Element) : e.run [] = e.chars :=
  List.append_nil _

theorem run_cons (e : Element) (r : Relation) (e' : Element)
    (rest : List (Relation × Element)) :
    e.run ((r, e') :: rest) = e.chars ++ (r.stopWord ++ e'.run rest) := by
  rw [run, List.flatMap_cons, List.append_assoc, run]

end Element

namespace Query

theorem joined_cons {P : Term -> Prop} {e : Element}
    {rest : List (Relation × Element)} (h : Full P (.cons e rest)) :
    joined (.cons e rest) = e.run rest := by
  have hne : forall text, text ∈
      (Chain.cons e.chars (rest.map (fun l => (l.1, l.2.chars)))).elements ->
        text ≠ [] := by
    intro text htext
    have hmem : text ∈ (Chain.map Element.chars (.cons e rest)).elements :=
      htext
    rw [Chain.elements_map, List.mem_map] at hmem
    rcases hmem with ⟨a, ha, rfl⟩
    exact Element.chars_ne_nil (h a ha)
  rw [joined, Chain.map, Chain.joinChars_cons hne, List.flatMap_map,
    Element.run]
  congr 2
  funext l
  simp [Relation.stopWord, Relation.ending]

theorem depth_cons (e : Element) (rest : List (Relation × Element)) :
    depth (.cons e rest) =
      max e.depth ((rest.map (fun l => l.2.depth)).foldr max 0) := by
  simp [depth, Chain.elements, Function.comp_def]

theorem depth_cons_cons (e e' : Element) (r : Relation)
    (rest : List (Relation × Element)) :
    depth (.cons e ((r, e') :: rest)) =
      max e.depth (depth (.cons e' rest)) := by
  rw [depth_cons, depth_cons]
  rfl

theorem depth_le_of_mem {q : Query} {e : Element} (h : e ∈ q.elements) :
    e.depth ≤ q.depth := by
  rw [depth]
  generalize q.elements = es at h ⊢
  induction es with
  | nil => cases h
  | cons a rest ih =>
      rw [List.map_cons, List.foldr_cons]
      rcases List.mem_cons.mp h with rfl | h
      · exact Nat.le_max_left _ _
      · exact Nat.le_trans (ih h) (Nat.le_max_right _ _)

theorem depth_le {q : Query} {n : Nat}
    (h : forall e, e ∈ q.elements -> e.depth ≤ n) : q.depth ≤ n := by
  rw [depth]
  generalize q.elements = es at h ⊢
  induction es with
  | nil => exact Nat.zero_le n
  | cons e rest ih =>
      rw [List.map_cons, List.foldr_cons]
      apply Nat.max_le.mpr
      refine ⟨h e List.mem_cons_self, ih ?_⟩
      intro a ha
      exact h a (List.mem_cons_of_mem e ha)

end Query

/-- A text leaves no escape open, and its brackets go `depth` deep and are all
closed. -/
structure Nested (text : List Char) (depth : Nat) : Prop where
  escaped : Text.escapedAfter false text = false
  nestsWithin_iff : forall limit n rest, n ≤ limit ->
    (Bracket.NestsWithin limit n (Text.brackets false text ++ rest) <->
      n + depth ≤ limit ∧ Bracket.NestsWithin limit n rest)

namespace Nested

variable {a b text : List Char} {m n : Nat}

theorem of_brackets_eq_nil (hescaped : Text.escapedAfter false text = false)
    (h : Text.brackets false text = []) : Nested text 0 where
  escaped := hescaped
  nestsWithin_iff := by
    intro limit n rest hle
    rw [h]
    exact (and_iff_right hle).symm

theorem append (ha : Nested a m) (hb : Nested b n) :
    Nested (a ++ b) (max m n) where
  escaped := by
    rw [Text.escapedAfter_append, ha.escaped, hb.escaped]
  nestsWithin_iff := by
    intro limit k rest hle
    rw [Text.brackets_append, ha.escaped, List.append_assoc,
      ha.nestsWithin_iff limit k _ hle, hb.nestsWithin_iff limit k _ hle,
      ← and_assoc, ← Nat.max_le, Nat.add_max_add_left]

theorem bracketed (h : Nested text n) :
    Nested ('(' :: text ++ [')']) (1 + n) where
  escaped := Text.escapedAfter_concat (by decide) _ _
  nestsWithin_iff := by
    intro limit k rest _
    have hbrackets : Text.brackets false ('(' :: text ++ [')']) =
        .opening :: (Text.brackets false text ++ [.closing]) := by
      show _ :: Text.brackets false (text ++ [')']) = _
      rw [Text.brackets_append, h.escaped]
      rfl
    rw [hbrackets, List.cons_append, List.append_assoc]
    show k + 1 ≤ limit ∧ _ <-> _
    rw [← Nat.add_assoc]
    constructor
    · intro hparts
      rcases hparts with ⟨hle, hrest⟩
      exact (h.nestsWithin_iff limit (k + 1) _ hle).mp hrest
    · intro hparts
      rcases hparts with ⟨hle, hrest⟩
      have hle' : k + 1 ≤ limit := by omega
      exact ⟨hle', (h.nestsWithin_iff limit (k + 1) _ hle').mpr ⟨hle, hrest⟩⟩

theorem nestsWithin (h : Nested text n) {limit : Nat} (hle : n ≤ limit) :
    Bracket.NestsWithin limit 0 (Text.brackets false text) := by
  rw [← List.append_nil (Text.brackets false text),
    h.nestsWithin_iff limit 0 [] (Nat.zero_le limit), Nat.zero_add]
  exact ⟨hle, rfl⟩

theorem le_of_nestsWithin (h : Nested text n) {limit : Nat}
    (hnests : Bracket.NestsWithin limit 0 (Text.brackets false text)) :
    n ≤ limit := by
  rw [← List.append_nil (Text.brackets false text),
    h.nestsWithin_iff limit 0 [] (Nat.zero_le limit), Nat.zero_add] at hnests
  exact hnests.1

end Nested

theorem nested_negation (negated : Bool) : Nested (negation negated) 0 := by
  apply Nested.of_brackets_eq_nil
  · cases negated <;> decide
  · cases negated <;> decide

theorem Relation.nested_stopWord (r : Relation) : Nested r.stopWord 0 := by
  apply Nested.of_brackets_eq_nil
  · cases r <;> decide
  · cases r <;> decide

theorem Term.nested_body {t : Term} (h : t.address.Legible) :
    Nested t.body 0 := by
  apply Nested.of_brackets_eq_nil
  · rw [Term.body, Text.escapedAfter_append, t.escapedAfter_head,
      Text.escapedAfter_escape]
  · rw [Term.body, Text.brackets_append, Term.brackets_head h,
      t.escapedAfter_head, Text.brackets_escape]
    rfl

namespace Query

theorem nested_run {e : Element} {rest : List (Relation × Element)}
    (h : forall a, a ∈ Chain.elements (.cons e rest) ->
      Nested a.chars a.depth) :
    Nested (e.run rest) (depth (.cons e rest)) := by
  induction rest generalizing e with
  | nil =>
      have he := h e List.mem_cons_self
      rw [Element.run_nil]
      simpa [depth_cons] using he
  | cons l rest ih =>
      rcases l with ⟨r, e'⟩
      have he := h e List.mem_cons_self
      have hrest := ih (fun a ha => h a (List.mem_cons_of_mem e ha))
      have hjoint := r.nested_stopWord.append hrest
      rw [Nat.zero_max] at hjoint
      rw [Element.run_cons, depth_cons_cons]
      exact he.append hjoint

end Query

theorem Element.nested_chars {e : Element}
    (h : e.Full (fun t => Nested t.body 0)) : Nested e.chars e.depth := by
  induction h with
  | @term t ht =>
      rw [chars_term, depth, fold_term]
      exact (nested_negation t.negated).append ht
  | @group items negated hne hfull ih =>
      rw [chars_group_of_full (.group hne hfull), depth_group]
      cases items with
      | nil => exact absurd rfl hne
      | cons e rest =>
          have hrun := Query.nested_run ih
          rw [← Query.joined_cons hfull] at hrun
          have hgroup := (nested_negation negated).append hrun.bracketed
          rw [Nat.zero_max] at hgroup
          exact hgroup

namespace Query

theorem nested_joined_of_body {q : Query}
    (h : q.Full (fun t => Nested t.body 0)) : Nested q.joined q.depth := by
  cases q with
  | nil => exact Nested.of_brackets_eq_nil rfl rfl
  | cons e rest =>
      rw [joined_cons h]
      apply nested_run
      intro a ha
      exact Element.nested_chars (h a ha)

theorem nested_joined {q : Query}
    (h : q.Full (fun t => t.address.Legible)) : Nested q.joined q.depth := by
  apply nested_joined_of_body
  intro e he
  apply (h e he).of_leaves
  intro t ht
  exact Term.nested_body ((h e he).of_mem_leaves ht)

end Query

end SearchQuery
