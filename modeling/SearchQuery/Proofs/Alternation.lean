import SearchQuery.Element.Rename
import SearchQuery.Proofs.Chain.Entry
import SearchQuery.Proofs.Level

/-!
# Alternation

A tree can also be kept with a plain sequence of entries in every group, which
nothing holds to the order of a chain.  Building, parsing and renaming on such a
tree do what they do on a query, and so its entries alternate at every level.
-/

namespace SearchQuery

open Chain (Entry)

/-- A tree that keeps the entries of a group as a plain sequence. -/
inductive Node where
  | term (term : Term)
  | group (entries : List (Entry Node)) (negated : Bool)

namespace Node

mutual

def renameStatement (old new : String) : Node -> Node
  | term t => term (t.renameStatement old new)
  | group es negated => group (renameEntries old new es) negated

def renameEntries (old new : String) : List (Entry Node) -> List (Entry Node)
  | [] => []
  | .element n :: es =>
      .element (renameStatement old new n) :: renameEntries old new es
  | .relation r :: es => .relation r :: renameEntries old new es

end

inductive Throughout (P : List (Entry Node) -> Prop) : Node -> Prop where
  | term {t : Term} : Throughout P (term t)
  | group {es : List (Entry Node)} {negated : Bool} : P es ->
      (forall n, .element n ∈ es -> Throughout P n) ->
      Throughout P (group es negated)

end Node

def Element.node : Element -> Node :=
  fold Node.term (fun items negated => .group items.entries negated)

def Query.nodes (q : Query) : List (Entry Node) :=
  (q.map Element.node).entries

/-!
# Reading into entries
-/

namespace Piece

def addTo (term : List Char -> Bool -> Except Fault Node)
    (nested : List Char -> Except Fault (List (Entry Node)))
    (es : List (Entry Node)) (p : Piece) :
    Except Fault (List (Entry Node)) :=
  match p.body with
  | .flat text =>
      (term text p.negated).map (fun n => Entry.add es (some p.relation) n)
  | .bracketed inner =>
      (nested inner).map (fun inside =>
        if inside.isEmpty then es
        else Entry.add es (some p.relation) (.group inside p.negated))

end Piece

def Outline.toEntries (term : List Char -> Bool -> Except Fault Node)
    (nested : List Char -> Except Fault (List (Entry Node))) (o : Outline) :
    Except Fault (List (Entry Node)) :=
  match o.pieces.foldlM (Piece.addTo term nested) [] with
  | .error fault => .error fault
  | .ok es =>
      match o.fault? with
      | some fault => .error fault
      | none => .ok es

def Level.entriesWithin (settings : Settings) :
    Nat -> Level -> Except Fault (List (Entry Node))
  | 0, _ => .ok []
  | fuel + 1, l =>
      (Outline.ofLevel l).toEntries
        (fun text negated =>
          (Fragment.read settings text negated).map Element.node)
        (fun inner => entriesWithin settings fuel (l.inner inner))

def Query.parseEntries (settings : Settings) (text : String) :
    Except ParseError (List (Entry Node)) :=
  (Level.entriesWithin settings (text.toList.length + 1)
    { text := text.toList, limit := settings.maxDepth }).mapError
      (ParseError.ofFault text)

/-!
# States of a builder
-/

mutual

/-- A query, while it is built and when it is done, and the entries that the same
operations lead to. -/
inductive Query.KeptAs : Query -> List (Entry Node) -> Prop where
  | new : Query.KeptAs .nil []
  | add {q : Query} {es : List (Entry Node)} {e : Element} {n : Node}
      (r? : Option Relation) : Query.KeptAs q es -> Element.KeptAs e n ->
      Query.KeptAs (q.add r? e) (Entry.add es r? n)
  | extend {q : Query} {es : List (Entry Node)} (r : Relation)
      (xs : List (Element × Node)) : Query.KeptAs q es ->
      (forall x, x ∈ xs -> Element.KeptAs x.1 x.2) ->
      Query.KeptAs (q.extend r (xs.map Prod.fst))
        (Entry.extend es r (xs.map Prod.snd))
  | parse {settings : Settings} {text : String} {q : Query}
      {es : List (Entry Node)} : Query.parse settings text = .ok q ->
      Query.parseEntries settings text = .ok es -> Query.KeptAs q es
  | rename {q : Query} {es : List (Entry Node)} (old new : String) :
      Query.KeptAs q es ->
      Query.KeptAs (q.renameStatement old new)
        (Node.renameEntries old new es)

inductive Element.KeptAs : Element -> Node -> Prop where
  | term (t : Term) : Element.KeptAs (.term t) (.term t)
  | group {q : Query} {es : List (Entry Node)} : Query.KeptAs q es ->
      Element.KeptAs (q.toElement false) (.group es false)
  | negate {items : Chain Element} {es : List (Entry Node)} {n : Bool}
      (negated : Bool) : Element.KeptAs (.group items n) (.group es n) ->
      Element.KeptAs (.group items negated) (.group es negated)
  | fragment {settings : Settings} {text : String} {negated : Bool}
      {e : Element} : Element.ofFragment settings text negated = .ok e ->
      Element.KeptAs e e.node

end

/-!
# Writing out
-/

namespace Element

theorem node_term (t : Term) : (term t).node = .term t := by
  rw [node, fold_term]

theorem node_group (items : Chain Element) (negated : Bool) :
    (group items negated).node = .group (Query.nodes items) negated := by
  rw [node, fold_group]
  rfl

end Element

namespace Query

theorem nodes_add (q : Query) (r? : Option Relation) (e : Element) :
    nodes (q.add r? e) = Entry.add q.nodes r? e.node := by
  rw [nodes, Chain.map_add, Chain.entries_add]
  rfl

theorem nodes_extend (q : Query) (r : Relation) (es : List Element) :
    nodes (q.extend r es) =
      Entry.extend q.nodes r (es.map Element.node) := by
  rw [nodes, Chain.map_extend, Chain.entries_extend]
  rfl

theorem nodes_map {f : Element -> Element} {g : Node -> Node} {q : Query}
    (h : forall e, e ∈ q.elements -> (f e).node = g e.node) :
    nodes (q.map f) = q.nodes.map (Entry.map g) := by
  rw [nodes, nodes, Chain.map_map, ← Chain.entries_map, Chain.map_map]
  exact congrArg Chain.entries (Chain.map_congr h)

end Query

namespace Node

theorem renameEntries_eq (old new : String) (es : List (Entry Node)) :
    renameEntries old new es =
      es.map (Entry.map (renameStatement old new)) := by
  induction es with
  | nil => rfl
  | cons e es ih =>
      cases e with
      | element n =>
          rw [renameEntries, ih]
          rfl
      | relation r =>
          rw [renameEntries, ih]
          rfl

end Node

theorem Element.node_renameStatement (old new : String) (e : Element) :
    (e.renameStatement old new).node = e.node.renameStatement old new := by
  induction e using Element.induction with
  | term t =>
      rw [renameStatement, fold_term, node_term, node_term]
      rfl
  | group items negated ih =>
      rw [renameStatement, fold_group, node_group, node_group,
        Node.renameStatement, Node.renameEntries_eq]
      congr 1
      exact Query.nodes_map ih

theorem Query.nodes_renameStatement (old new : String) (q : Query) :
    (q.renameStatement old new).nodes =
      Node.renameEntries old new q.nodes := by
  rw [Node.renameEntries_eq]
  apply nodes_map
  intro e _
  exact Element.node_renameStatement old new e

/-!
# Parsing into entries
-/

namespace Piece

variable (term : List Char -> Bool -> Except Fault Element)
  {nested : List Char -> Except Fault Query}
  {nested' : List Char -> Except Fault (List (Entry Node))}

theorem addTo_nodes
    (h : forall inner, nested' inner = (nested inner).map Query.nodes)
    (q : Query) (p : Piece) :
    addTo (fun text negated => (term text negated).map Element.node) nested'
        q.nodes p =
      (p.element? term nested).map (fun e? =>
        Query.nodes (e?.elim q (q.add (some p.relation)))) := by
  rcases p with ⟨r, negated, body⟩
  cases body with
  | flat text =>
      simp only [addTo, element?]
      cases term text negated with
      | error fault => rfl
      | ok e => exact congrArg Except.ok (Query.nodes_add q (some r) e).symm
  | bracketed inner =>
      simp only [addTo, element?, h]
      cases nested inner with
      | error fault => rfl
      | ok items =>
          cases items with
          | nil => rfl
          | cons first rest =>
              apply congrArg Except.ok
              show Entry.add q.nodes (some r) _ =
                Query.nodes (q.add (some r) _)
              rw [Query.nodes_add, Element.node_group]

theorem foldlM_addTo
    (h : forall inner, nested' inner = (nested inner).map Query.nodes)
    (pieces : List Piece) (q : Query) :
    pieces.foldlM
        (addTo (fun text negated => (term text negated).map Element.node)
          nested') q.nodes =
      (joints term nested pieces).map (fun js =>
        Query.nodes (js.foldl (fun q l => q.add (some l.1) l.2) q)) := by
  induction pieces generalizing q with
  | nil => rfl
  | cons p rest ih =>
      rw [List.foldlM_cons, addTo_nodes term h, joints]
      cases p.element? term nested with
      | error fault => rfl
      | ok e? =>
          have hrest := ih (e?.elim q (q.add (some p.relation)))
          apply hrest.trans
          cases joints term nested rest with
          | error fault => rfl
          | ok js =>
              cases e? with
              | none => rfl
              | some e => rfl

end Piece

theorem Level.entriesWithin_eq (settings : Settings) (fuel : Nat) (l : Level) :
    entriesWithin settings fuel l =
      (readWithin settings fuel l).map Query.nodes := by
  induction fuel generalizing l with
  | zero => rfl
  | succ fuel ih =>
      rw [entriesWithin, readWithin, Outline.toEntries, Outline.toQuery]
      have hfold := Piece.foldlM_addTo (Fragment.read settings)
        (fun inner => ih (l.inner inner)) (Outline.ofLevel l).pieces .nil
      rw [show Query.nodes .nil = [] from rfl] at hfold
      rw [hfold]
      cases Piece.joints (Fragment.read settings)
          (fun inner => readWithin settings fuel (l.inner inner))
          (Outline.ofLevel l).pieces with
      | error fault => rfl
      | ok js =>
          cases (Outline.ofLevel l).fault? with
          | some fault => rfl
          | none =>
              have hjs := Chain.foldl_add_joints js
              exact congrArg (fun q => Except.ok (Query.nodes q)) hjs

theorem Query.parseEntries_eq (settings : Settings) (text : String) :
    parseEntries settings text = (parse settings text).map nodes := by
  rw [parseEntries, parse, read, Level.read, Level.entriesWithin_eq]
  cases Level.readWithin settings (text.toList.length + 1)
      { text := text.toList, limit := settings.maxDepth } with
  | error fault => rfl
  | ok q => rfl

/-!
# Reachable states

By induction on the operations that lead to a state: each of them does to entries
what it does to the query, written out.
-/

mutual

theorem Query.eq_nodes_of_keptAs {q : Query} {es : List (Entry Node)} :
    Query.KeptAs q es -> es = q.nodes
  | .new => rfl
  | .add r? hq he => by
      rw [Query.nodes_add, ← Query.eq_nodes_of_keptAs hq,
        ← Element.eq_node_of_keptAs he]
  | .extend r xs hq hxs => by
      have hnodes : xs.map Prod.snd = (xs.map Prod.fst).map Element.node := by
        rw [List.map_map]
        apply List.map_congr_left
        intro x hx
        exact Element.eq_node_of_keptAs (hxs x hx)
      rw [Query.nodes_extend, ← Query.eq_nodes_of_keptAs hq, hnodes]
  | .parse hq hes => by
      rw [Query.parseEntries_eq, hq] at hes
      cases hes
      rfl
  | .rename old new hq => by
      rw [Query.nodes_renameStatement, ← Query.eq_nodes_of_keptAs hq]

theorem Element.eq_node_of_keptAs {e : Element} {n : Node} :
    Element.KeptAs e n -> n = e.node
  | .term t => (Element.node_term t).symm
  | .group hq => by
      rw [Query.toElement, Element.node_group, ← Query.eq_nodes_of_keptAs hq]
  | .negate negated h => by
      have hnode := Element.eq_node_of_keptAs h
      rw [Element.node_group] at hnode ⊢
      injection hnode with hnodes _
      rw [hnodes]
  | .fragment _ => rfl

end

/-!
# Order at every level
-/

theorem Element.throughout_node {P : List (Entry Node) -> Prop}
    (h : forall q : Query, P q.nodes) (e : Element) : e.node.Throughout P := by
  induction e using Element.induction with
  | term t =>
      rw [node_term]
      exact Node.Throughout.term
  | group items negated ih =>
      rw [node_group]
      apply Node.Throughout.group (h items)
      intro n hn
      rw [Query.nodes, Chain.element_mem_entries_iff,
        Chain.elements_map] at hn
      rcases List.mem_map.mp hn with ⟨e, he, rfl⟩
      exact ih e he

namespace Query

theorem orderly_nodes (q : Query) : Entry.Orderly q.nodes :=
  (Chain.alternates_entries _).orderly

theorem links_nodes (q : Query) :
    Entry.links q.nodes = q.links.map (fun l => (l.1, l.2.node)) := by
  rw [nodes, Chain.links_entries]
  cases q with
  | nil => rfl
  | cons e rest => simp [Chain.map, Chain.links]

theorem length_nodes (q : Query) : (q.nodes.length + 1) / 2 = q.size := by
  rw [nodes, Chain.length_entries, ← Chain.size_eq_length_elements,
    Chain.elements_map, List.length_map, Chain.size_eq_length_elements]

/-- The entries that building, parsing and renaming keep are those of the query,
in order at every level.  So their number gives the number of elements, and one
pass over them gives the links, which further elements extend. -/
theorem orderly_of_keptAs :
    (forall (q : Query) (es : List (Entry Node)), q.KeptAs es ->
      es = q.nodes ∧ (Node.group es false).Throughout Entry.Orderly ∧
        (es.length + 1) / 2 = q.size ∧ q.size = q.elements.length ∧
        Entry.links es = q.links.map (fun l => (l.1, l.2.node)) ∧
        forall ls : List (Option Relation × Element),
          (ls.foldl (fun q l => q.add l.1 l.2) q).links =
            q.links ++ ls.mapIdx (fun i l =>
              (if q.isEmpty ∧ i = 0 then none else some (l.1.getD .and),
                l.2))) ∧
      forall (e : Element) (n : Node), e.KeptAs n ->
        n = e.node ∧ n.Throughout Entry.Orderly := by
  constructor
  · intro q es h
    rcases eq_nodes_of_keptAs h with rfl
    refine ⟨rfl, ?_, q.length_nodes, (Chain.size_eq_length_elements q).symm,
      q.links_nodes, Chain.links_foldl_add q⟩
    rw [← Element.node_group]
    exact Element.throughout_node orderly_nodes _
  · intro e n h
    rcases Element.eq_node_of_keptAs h with rfl
    exact ⟨rfl, Element.throughout_node orderly_nodes e⟩

theorem orderly_of_keptAs_behind :
    exists q es e n, Query.KeptAs q es ∧ Element.KeptAs e n ∧
      q.text = "title=x AND NOT (role=y OR role=z)" ∧
      (Node.group es false).Throughout Entry.Orderly ∧
      (es.length + 1) / 2 = q.size ∧ q.size = 2 ∧
      n.Throughout Entry.Orderly := by
  have hquery : parse {} "title=x" = .ok (.single
      (.term { address := .field .title, value := "x" })) := rfl
  have hentries : parseEntries {} "title=x" = .ok
      [.element (.term { address := .field .title, value := "x" })] := by
    rw [parseEntries_eq, hquery]
    rfl
  have hy := Element.KeptAs.term { address := .field .role, value := "y" }
  have hz := Element.KeptAs.term { address := .field .role, value := "z" }
  have hgroup : Element.KeptAs _ _ :=
    .negate true (.group (.add (some .or) (.add (some .or) .new hy) hz))
  have hadded := (KeptAs.parse hquery hentries).add none hgroup
  exact ⟨_, _, _, _, hadded, hgroup, rfl,
    (orderly_of_keptAs.1 _ _ hadded).2.1,
    (orderly_of_keptAs.1 _ _ hadded).2.2.1, rfl,
    (orderly_of_keptAs.2 _ _ hgroup).2⟩

end Query

end SearchQuery
