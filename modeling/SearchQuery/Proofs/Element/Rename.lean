import SearchQuery.Element.Rename
import SearchQuery.Element.Same
import SearchQuery.Parse
import SearchQuery.Proofs.Element.Leaves

/-!
# Renaming as substitution

Renaming a statement replaces terms where they stand and keeps the shape of the
tree.  So its laws are those of the same change to one address: it can be taken back
when the new name was not in use, and two renamings that do not touch each other can
be made in either order.
-/

namespace SearchQuery

namespace Element

theorem mapTerms_congr {f g : Term -> Term} {e : Element}
    (h : forall t, t ∈ e.leaves -> f t = g t) : e.mapTerms f = e.mapTerms g := by
  induction e using Element.induction with
  | term t => rw [mapTerms_term, mapTerms_term, h t (by simp)]
  | group items negated ih =>
      rw [mapTerms_group, mapTerms_group]
      congr 1
      apply Chain.map_congr
      intro e he
      apply ih e he
      intro t ht
      apply h
      rw [leaves_group, List.mem_flatMap]
      exact ⟨e, he, ht⟩

theorem normal_mapTerms {f : Term -> Term}
    (h : forall t, f { t with negated := false } = { f t with negated := false })
    (e : Element) : (e.mapTerms f).normal = e.normal.mapTerms f := by
  induction e using Element.induction with
  | term t => simp [h]
  | group items negated ih =>
      rw [mapTerms_group]
      by_cases hsize : items.size = 1
      · rcases Chain.eq_single_of_size hsize with ⟨e, rfl⟩
        rw [normal_group_single, ← ih e List.mem_cons_self]
        exact normal_group_single _ negated
      · rw [normal_group hsize, mapTerms_group, normal_group, Chain.map_map,
          Chain.map_map, Chain.map_congr ih]
        rwa [Chain.size_map]

theorem isSame_renameStatement {x y : Element} (h : x.isSame y = true)
    (a b : String) :
    (x.renameStatement a b).isSame (y.renameStatement a b) = true := by
  have hnegated : forall t : Term,
      Term.renameStatement a b { t with negated := false } =
        { t.renameStatement a b with negated := false } := fun _ => rfl
  rw [isSame_iff, renameStatement_eq_mapTerms, normal_mapTerms hnegated,
    normal_mapTerms hnegated, isSame_iff.mp h]

end Element

/-!
# Queries
-/

namespace Query

def indices (q : Query) : List String :=
  q.leaves.filterMap (fun t => t.address.index?)

variable {a b : String}

theorem depth_renameStatement (q : Query) :
    (q.renameStatement a b).depth = q.depth := by
  apply depth_map
  intro e _
  exact Element.depth_mapTerms _ e

theorem renameStatement_renameStatement (a b c d : String) (q : Query) :
    (q.renameStatement a b).renameStatement c d =
      q.map (Element.mapTerms
        (fun t => (t.renameStatement a b).renameStatement c d)) := by
  rw [renameStatement, renameStatement, Chain.map_map]
  apply Chain.map_congr
  intro e _
  exact Element.mapTerms_mapTerms _ _ e

theorem renameStatement_trans {q : Query} (h : b ∉ q.indices) (a c : String) :
    (q.renameStatement a b).renameStatement b c = q.renameStatement a c := by
  rw [renameStatement_renameStatement]
  apply Chain.map_congr
  intro e he
  apply Element.mapTerms_congr
  intro t ht
  have hindex : t.address.index? ≠ some b := by
    intro heq
    exact h (List.mem_filterMap.mpr ⟨t, List.mem_flatMap.mpr ⟨e, he, ht⟩, heq⟩)
  simp only [Term.renameStatement, Address.renameStatement_trans hindex]

theorem renameStatement_self (a : String) (q : Query) :
    q.renameStatement a a = q := by
  have hid : Term.renameStatement a a = fun t => t := by
    funext t
    rw [Term.renameStatement, Address.renameStatement_self]
  rw [renameStatement, Element.renameStatement_eq_mapTerms, hid,
    Chain.map_congr (g := id) (fun e _ => Element.mapTerms_id e)]
  exact Chain.map_id q

theorem renameStatement_comm {c d : String} (hac : a ≠ c) (had : a ≠ d)
    (hbc : b ≠ c) (q : Query) :
    (q.renameStatement a b).renameStatement c d =
      (q.renameStatement c d).renameStatement a b := by
  rw [renameStatement_renameStatement, renameStatement_renameStatement]
  congr 2
  funext t
  simp only [Term.renameStatement, Address.renameStatement_comm hac had hbc]

/-- Renaming a statement is a substitution.  It puts the new name in place of the
old one and changes nothing else.  It is undone by the reverse renaming if the new
name was not in use, and goes on to any other name.  Renamings that have no name in
common can be made in either order.  And groups that are the same search stay so. -/
theorem renameStatement_substitutes (a b : String) :
    (forall q q' : Query, q.renameStatement a b = q' <-> Renamed a b q q') ∧
      (forall q : Query, (q.renameStatement a b).depth = q.depth) ∧
      (forall q : Query, b ∉ q.indices ->
        (q.renameStatement a b).renameStatement b a = q ∧
          forall c, (q.renameStatement a b).renameStatement b c =
            q.renameStatement a c) ∧
      (forall c d, a ≠ c -> a ≠ d -> b ≠ c -> b ≠ d -> forall q : Query,
        (q.renameStatement a b).renameStatement c d =
          (q.renameStatement c d).renameStatement a b) ∧
      forall (q q' : Query) (m n : Bool),
        (q.toElement m).isSame (q'.toElement n) = true ->
          ((q.renameStatement a b).toElement m).isSame
            ((q'.renameStatement a b).toElement n) = true := by
  refine ⟨fun q q' => renameStatement_eq_iff, depth_renameStatement, ?_, ?_, ?_⟩
  · intro q h
    refine ⟨?_, renameStatement_trans h a⟩
    rw [renameStatement_trans h, renameStatement_self]
  · intro c d hac had hbc _ q
    exact renameStatement_comm hac had hbc q
  · intro q q' m n h
    have hrename : forall (q : Query) (negated : Bool),
        (q.renameStatement a b).toElement negated =
          (q.toElement negated).renameStatement a b := by
      intro q negated
      exact (Element.mapTerms_group _ q negated).symm
    rw [hrename, hrename]
    exact Element.isSame_renameStatement h a b

theorem renameStatement_substitutes_nested :
    exists q q' recast : Query,
      parse {} "md.author.name=Doe AND (NOT md.author=J OR md.title=x)" = .ok q ∧
        parse {} "md.creator.name=Doe AND (NOT md.creator=J OR md.title=x)" =
          .ok q' ∧
        parse {} "NOT md.author.name=Doe AND ((md.author=J OR md.title=x))" =
          .ok recast ∧
        q.renameStatement "author" "creator" = q' ∧
        Renamed "author" "creator" q q' ∧
        "creator" ∉ q.indices ∧ q'.renameStatement "creator" "author" = q ∧
        q'.renameStatement "title" "heading" =
          (q.renameStatement "title" "heading").renameStatement "author"
            "creator" ∧
        ((q.renameStatement "author" "creator").toElement false).isSame
          ((recast.renameStatement "author" "creator").toElement true) = true := by
  let name (index : String) (negated : Bool) : Element :=
    .term
      { address := .statement index (some .name)
        value := "Doe"
        negated := negated }
  let inner (index : String) (negated : Bool) : Query :=
    .cons (.term
      { address := .statement index none, value := "J", negated := negated })
      [(.or, .term { address := .statement "title" none, value := "x" })]
  let q : Query :=
    .cons (name "author" false) [(.and, .group (inner "author" true) false)]
  let q' : Query :=
    .cons (name "creator" false) [(.and, .group (inner "creator" true) false)]
  let recast : Query :=
    .cons (name "author" true)
      [(.and, .group (.single (.group (inner "author" false) false)) false)]
  have hq : q.renameStatement "author" "creator" = q' := rfl
  have hindex : "creator" ∉ q.indices := by decide
  have hsame : (q.toElement false).isSame (recast.toElement true) = true := rfl
  rcases renameStatement_substitutes "author" "creator" with
    ⟨hrenamed, _, htrans, hcomm, hisSame⟩
  refine ⟨q, q', recast, rfl, rfl, rfl, hq, (hrenamed q q').mp hq, hindex, ?_, ?_,
    hisSame q recast false true hsame⟩
  · exact (htrans q hindex).1
  · exact hcomm "title" "heading" (by decide) (by decide) (by decide) (by decide) q

end Query

end SearchQuery
