import SearchQuery.Element.Same

/-!
# What is the same search

Two elements are the same search exactly when they have the same normal form,
which has no negation and no brackets around a single element.  So the test is an
equivalence.  It passes over negations and over brackets around single elements,
wherever they stand, and over nothing else.
-/

namespace SearchQuery

namespace Element

/-- Two elements that differ in negations and in brackets around single elements,
anywhere in them, and in nothing else. -/
inductive Recast : Element -> Element -> Prop where
  | term {t u : Term} : t.address = u.address -> t.operator = u.operator ->
      t.value = u.value -> Recast (term t) (term u)
  | group {c d : Chain Element} {m n : Bool} :
      c.joints.map Prod.fst = d.joints.map Prod.fst ->
      (forall p, p ∈ c.elements.zip d.elements -> Recast p.1 p.2) ->
      Recast (group c m) (group d n)
  | left {e f : Element} {n : Bool} : Recast e f ->
      Recast (group (.single e) n) f
  | right {e f : Element} {n : Bool} : Recast e f ->
      Recast e (group (.single f) n)

theorem Recast.normal_eq {a b : Element} (h : Recast a b) :
    a.normal = b.normal := by
  induction h with
  | @term t u haddress hoperator hvalue =>
      rw [normal_term, normal_term, haddress, hoperator, hvalue]
  | @group c d m n hrelations _ ih =>
      apply normal_group_congr
      exact Chain.map_eq_map_iff.mpr ⟨hrelations, ih⟩
  | left _ ih => rw [normal_group_single, ih]
  | right _ ih => rw [normal_group_single, ih]

theorem recast_of_normal_eq {a b : Element} (h : a.normal = b.normal) :
    Recast a b := by
  induction a using Element.induction generalizing b with
  | term t =>
      -- Brackets around a single element of the right side are opened first.
      induction b using Element.induction with
      | term u =>
          rw [normal_term, normal_term] at h
          injection h with h
          injection h with haddress hoperator hvalue
          exact Recast.term haddress hoperator hvalue
      | group items n ih =>
          by_cases hsize : items.size = 1
          · rcases Chain.eq_single_of_size hsize with ⟨f, rfl⟩
            rw [normal_group_single] at h
            exact Recast.right (ih f List.mem_cons_self h)
          · rw [normal_term, normal_group hsize] at h
            cases h
  | group items m ih =>
      by_cases hsize : items.size = 1
      · rcases Chain.eq_single_of_size hsize with ⟨e, rfl⟩
        rw [normal_group_single] at h
        exact Recast.left (ih e List.mem_cons_self h)
      rw [normal_group hsize] at h
      induction b using Element.induction with
      | term u =>
          rw [normal_term] at h
          cases h
      | group items' n ih' =>
          by_cases hsize' : items'.size = 1
          · rcases Chain.eq_single_of_size hsize' with ⟨f, rfl⟩
            rw [normal_group_single] at h
            exact Recast.right (ih' f List.mem_cons_self h)
          · rw [normal_group hsize'] at h
            injection h with h
            rcases Chain.map_eq_map_iff.mp h with ⟨hrelations, helements⟩
            apply Recast.group hrelations
            intro p hp
            exact ih p.1 (List.of_mem_zip hp).1 (helements p hp)

/-- The test for the same search compares normal forms.  So it is an equivalence,
and it accepts exactly the elements that are recast into each other. -/
theorem isSame_iff_normal_eq :
    (forall a b : Element, a.isSame b = true <-> a.normal = b.normal) ∧
      Equivalence (fun a b : Element => a.isSame b = true) ∧
      forall a b : Element, a.isSame b = true <-> Recast a b := by
  refine ⟨fun a b => isSame_iff, ?_, ?_⟩
  · constructor
    · intro a
      exact isSame_iff.mpr rfl
    · intro a b h
      exact isSame_iff.mpr (isSame_iff.mp h).symm
    · intro a b c hab hbc
      exact isSame_iff.mpr ((isSame_iff.mp hab).trans (isSame_iff.mp hbc))
  · intro a b
    rw [isSame_iff]
    exact ⟨recast_of_normal_eq, Recast.normal_eq⟩

example (t : Term) :
    isSame (group (.single (group (.single (group .nil true)) false)) true)
        (group .nil false) = true ∧
      isSame (group .nil false) (group (.single (term t)) false) = false :=
  ⟨rfl, rfl⟩

end Element

end SearchQuery
