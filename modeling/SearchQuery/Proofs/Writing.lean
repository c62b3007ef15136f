import SearchQuery.Proofs.Alternation
import SearchQuery.Proofs.Canonical

/-!
# Writing entries

A query can be written in one pass over its entries.  The pass keeps what is
written so far and the relation that was passed last, and finds out that a group
has no leaves only when nothing comes of writing it.  The text is the same as that
of the tree without such groups, whatever stands next to them, and there is no
text only if there are no leaves.
-/

namespace SearchQuery

open Chain (Entry)

namespace Chain

/-!
# One pass over the texts of entries
-/

/-- Write the texts among entries behind `out`, the text that is there already.  In
front of each goes the relation that was passed last, or `AND`, unless it is the
first.  A text that is empty is left out, and no relation passed before it
counts. -/
def Entry.write (out : List Char) (passed : Option Relation) :
    List (Entry (List Char)) -> List Char
  | [] => out
  | .relation r :: es => Entry.write out (some r) es
  | .element text :: es =>
      if text = [] then Entry.write out none es
      else if out = [] then Entry.write text none es
      else
        Entry.write
          (out ++ (' ' :: (passed.getD .and).keyword.toList ++ ' ' :: text))
          none es

def writtenJoints (js : List (Relation × List Char)) :
    List (Relation × List Char) :=
  js.filterMap (fun l =>
    (if l.2 = [] then none else some l.2).map (fun text => (l.1, text)))

theorem writtenJoints_cons_nil (r : Relation)
    (js : List (Relation × List Char)) :
    writtenJoints ((r, []) :: js) = writtenJoints js := rfl

theorem writtenJoints_cons {text : List Char} (h : text ≠ []) (r : Relation)
    (js : List (Relation × List Char)) :
    writtenJoints ((r, text) :: js) = (r, text) :: writtenJoints js := by
  simp [writtenJoints, h]

theorem write_jointEntries {out : List Char} (h : out ≠ [])
    (js : List (Relation × List Char)) :
    Entry.write out none (jointEntries js) =
      out ++ (writtenJoints js).flatMap (fun l =>
        ' ' :: l.1.keyword.toList ++ ' ' :: l.2) := by
  induction js generalizing out with
  | nil => simp [jointEntries, Entry.write, writtenJoints]
  | cons l js ih =>
      rcases l with ⟨r, text⟩
      rw [jointEntries_cons, Entry.write, Entry.write]
      by_cases htext : text = []
      · rw [if_pos htext, htext, writtenJoints_cons_nil, ih h]
      · rw [if_neg htext, if_neg h, ih (by simp [h]),
          writtenJoints_cons htext, List.flatMap_cons, List.append_assoc]
        rfl

def joinJoints (js : List (Relation × List Char)) : List Char :=
  match ofJoints js with
  | nil => []
  | cons text rest =>
      text ++ rest.flatMap (fun l => ' ' :: l.1.keyword.toList ++ ' ' :: l.2)

theorem write_jointEntries_nil (js : List (Relation × List Char)) :
    Entry.write [] none (jointEntries js) = joinJoints (writtenJoints js) := by
  induction js with
  | nil => rfl
  | cons l js ih =>
      rcases l with ⟨r, text⟩
      rw [jointEntries_cons, Entry.write, Entry.write]
      by_cases htext : text = []
      · rw [if_pos htext, htext, writtenJoints_cons_nil, ih]
      · rw [if_neg htext, if_pos rfl, writtenJoints_cons htext,
          write_jointEntries htext]
        rfl

/-- Writing the entries of a chain of texts joins the texts. -/
theorem write_entries (texts : Chain (List Char)) :
    Entry.write [] none texts.entries = texts.joinChars := by
  have hjoin : texts.joinChars = joinJoints (writtenJoints texts.joints) := rfl
  rw [hjoin]
  cases texts with
  | nil => rfl
  | cons text rest => exact write_jointEntries_nil ((.and, text) :: rest)

end Chain

/-!
# The texts of nodes
-/

namespace Node

mutual

def chars : Node -> List Char
  | term t => t.charsWith Text.escape
  | group es negated =>
      match Entry.write [] none (texts es) with
      | [] => []
      | inner => negation negated ++ '(' :: inner ++ [')']

def texts : List (Entry Node) -> List (Entry (List Char))
  | [] => []
  | .element n :: es => .element (chars n) :: texts es
  | .relation r :: es => .relation r :: texts es

end

def write (es : List (Entry Node)) : List Char :=
  Text.trimEnd (Entry.write [] none (texts es))

theorem texts_eq (es : List (Entry Node)) : texts es = es.map (Entry.map chars) := by
  induction es with
  | nil => rfl
  | cons e es ih =>
      cases e with
      | element n =>
          rw [texts, ih]
          rfl
      | relation r =>
          rw [texts, ih]
          rfl

end Node

theorem Query.texts_nodes {q : Query}
    (h : forall e, e ∈ q.elements -> e.node.chars = e.chars) :
    Node.texts q.nodes = (q.map Element.chars).entries := by
  rw [Node.texts_eq, nodes, ← Chain.entries_map, Chain.map_map]
  exact congrArg Chain.entries (Chain.map_congr h)

theorem Element.chars_node (e : Element) : e.node.chars = e.chars := by
  induction e using Element.induction with
  | term t => rw [node_term, Node.chars, chars, charsWith_term]
  | group items negated ih =>
      rw [node_group, Node.chars, Query.texts_nodes ih, Chain.write_entries]
      exact (charsWith_group Text.escape items negated).symm

namespace Query

theorem write_nodes (q : Query) : Node.write q.nodes = q.chars := by
  rw [Node.write, texts_nodes (fun e _ => e.chars_node), Chain.write_entries]
  rfl

theorem chars_eq_nil_iff {q : Query} : q.chars = [] <-> q.leaves = [] := by
  have hfull : q.prune.Full (fun _ => True) := q.full_prune (fun _ _ => trivial)
  rw [chars, ← q.charsWith_prune Text.escape, ← q.leaves_prune]
  show Query.chars _ = [] <-> _
  cases hprune : q.prune with
  | nil => exact iff_of_true rfl rfl
  | cons e rest =>
      rw [hprune] at hfull
      have he := hfull e List.mem_cons_self
      apply iff_of_false
      · rw [chars_eq, joined_cons hfull]
        exact Element.trimEnd_run_ne_nil he rest
      · intro hleaves
        rw [leaves, List.flatMap_eq_nil_iff] at hleaves
        exact he.leaves_ne_nil (hleaves e List.mem_cons_self)

/-- One pass over the entries of a query writes its text, and the same text comes of
what pruning leaves of it.  So groups without leaves are ignored, wherever they
stand, and nothing is written only where there is nothing else. -/
theorem text_eq_text_prune (q : Query) :
    String.ofList (Node.write q.nodes) = q.text ∧ q.text = q.prune.text ∧
      (q.text = "" <-> q.leaves = []) := by
  refine ⟨?_, q.text_prune.symm, ?_⟩
  · rw [write_nodes, text]
  · rw [← chars_eq_nil_iff, text, ← String.toList_eq_nil_iff,
      String.toList_ofList]

example (t u : Term) :
    prune (.cons (.group .nil true)
        [(.or, .term t), (.or, .group (.single (.group .nil true)) false),
          (.or, .group .nil false), (.and, .term u)]) =
      .cons (.term t) [(.and, .term u)] := rfl

end Query

end SearchQuery
