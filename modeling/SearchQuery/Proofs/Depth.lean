import SearchQuery.Proofs.Canonical

/-!
# Depth of a query

The limit holds for the brackets of a text.  Free text may stand for a group that
has no brackets there, so it can lie one group deeper than the limit; every other
group of the query lies within it.
-/

namespace SearchQuery

namespace Element

/-- An element whose groups nest no deeper than there is room for, not counting
the groups that free text stands for. -/
inductive Within (fallback : Bool) : Nat -> Element -> Prop where
  | term {room : Nat} {t : Term} : Within fallback room (term t)
  | freeText {room : Nat} {text : String} {negated : Bool} :
      Within fallback room (freeText fallback text negated)
  | group {room : Nat} {items : Chain Element} {negated : Bool} :
      (forall e, e ∈ items.elements -> Within fallback room e) ->
      Within fallback (room + 1) (group items negated)

theorem depth_freeText (fallback : Bool) (text : String) (negated : Bool) :
    (freeText fallback text negated).depth = fallback.toNat := by
  cases fallback <;> rfl

theorem Within.depth_le {fallback : Bool} {room : Nat} {e : Element}
    (h : e.Within fallback room) : e.depth ≤ room + fallback.toNat := by
  induction h with
  | term =>
      rw [depth, fold_term]
      exact Nat.zero_le _
  | @freeText room =>
      rw [depth_freeText]
      exact Nat.le_add_left _ room
  | @group room items negated _ ih =>
      have hitems : Query.depth items ≤ room + fallback.toNat :=
        Query.depth_le ih
      rw [depth_group]
      omega

theorem within_of_read {settings : Settings} {text : List Char}
    {negated : Bool} {e : Element}
    (h : Fragment.read settings text negated = .ok e) (room : Nat) :
    e.Within settings.fulltextFallback room := by
  rcases Fragment.element_cases (Fragment.read_eq_ok_iff.mp h) with
    ⟨shape, s, address, _, _, rfl⟩ | ⟨_, rfl⟩
  · exact Within.term
  · exact Within.freeText

end Element

namespace Query

/-- The groups of a query that was parsed nest within the limit, apart from those
that free text stands for.  With them the tree and its text are at most one group
deeper, and without the fallback for free text they are not. -/
theorem within_of_parse {settings : Settings} {text : String} {q : Query}
    (h : parse settings text = .ok q) :
    (forall e, e ∈ q.elements ->
      e.Within settings.fulltextFallback settings.maxDepth) ∧
      q.depth ≤ settings.maxDepth + settings.fulltextFallback.toNat ∧
      Bracket.NestsWithin (settings.maxDepth + settings.fulltextFallback.toNat)
        0 (Text.brackets false q.text.toList) := by
  have hread := parse_eq_ok_iff.mp h
  have hwithin : forall e, e ∈ q.elements ->
      e.Within settings.fulltextFallback settings.maxDepth := by
    apply Level.forall_within_of_read
      (P := Element.Within settings.fulltextFallback) _ _ hread
    · intro room text negated e _ hfragment
      exact Element.within_of_read hfragment room
    · intro room items negated _ hitems
      exact Element.Within.group hitems
  have hdepth : q.depth ≤
      settings.maxDepth + settings.fulltextFallback.toNat := by
    apply depth_le
    intro e he
    exact (hwithin e he).depth_le
  refine ⟨hwithin, hdepth, ?_⟩
  rw [Query.text, String.toList_ofList, brackets_chars]
  exact (nested_joined (full_of_level hread)).nestsWithin hdepth

theorem within_of_parse_bracketed :
    parse { maxDepth := 1 } "(sunset)" = .ok (.single
        (.group (.single (.freeText true "sunset" false)) false)) ∧
      depth (.single
        (.group (.single (.freeText true "sunset" false)) false)) ≤ 1 + 1 ∧
      parse { maxDepth := 1, fulltextFallback := false } "(sunset)" =
        .ok (.single
          (.group (.single (.freeText false "sunset" false)) false)) ∧
      depth (.single
        (.group (.single (.freeText false "sunset" false)) false)) ≤ 1 + 0 := by
  have hgroup : parse { maxDepth := 1 } "(sunset)" = .ok (.single
      (.group (.single (.freeText true "sunset" false)) false)) := rfl
  have hterm : parse { maxDepth := 1, fulltextFallback := false } "(sunset)" =
      .ok (.single
        (.group (.single (.freeText false "sunset" false)) false)) := rfl
  exact ⟨hgroup, (within_of_parse hgroup).2.1, hterm,
    (within_of_parse hterm).2.1⟩

theorem not_depth_le_of_parse_sunset :
    parse { maxDepth := 0 } "sunset" =
        .ok (.single (.freeText true "sunset" false)) ∧
      ¬ depth (.single (.freeText true "sunset" false)) ≤ 0 ∧
      parse { maxDepth := 0 } (text (.single
          (.freeText true "sunset" false))) =
        .error
          { cause := .tooDeep 0, fragment := "(all=sunset OR fulltext=sunset)",
            query := "(all=sunset OR fulltext=sunset)" } :=
  ⟨rfl, by decide, rfl⟩

end Query

end SearchQuery
