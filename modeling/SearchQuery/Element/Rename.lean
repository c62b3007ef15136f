import SearchQuery.Element

/-!
# Renaming a statement

Every term on one metadata statement is moved to another, at every depth, and
nothing else changes.
-/

namespace SearchQuery

namespace Address

def renameStatement (old new : String) : Address -> Address
  | statement index subfield =>
      statement (if index = old then new else index) subfield
  | address => address

end Address

namespace Term

def renameStatement (old new : String) (t : Term) : Term :=
  { t with address := t.address.renameStatement old new }

end Term

namespace Element

def renameStatement (old new : String) : Element -> Element :=
  fold (fun t => term (t.renameStatement old new)) group

end Element

namespace Query

def renameStatement (old new : String) (q : Query) : Query :=
  q.map (Element.renameStatement old new)

end Query

/-!
# One address
-/

namespace Address

def index? : Address -> Option String
  | statement index _ => some index
  | _ => none

variable {a b c d : String}

theorem renameStatement_self (a : String) (x : Address) :
    x.renameStatement a a = x := by
  cases x with
  | statement index subfield =>
      by_cases h : index = a <;> simp [renameStatement, h]
  | _ => rfl

theorem renameStatement_of_ne {x : Address} (h : x.index? ≠ some a)
    (b : String) : x.renameStatement a b = x := by
  cases x with
  | statement index subfield =>
      rw [renameStatement, if_neg (fun heq => h (congrArg some heq))]
  | _ => rfl

/-- A name that is not in use can stand between two others. -/
theorem renameStatement_trans {x : Address} (h : x.index? ≠ some b)
    (a c : String) :
    (x.renameStatement a b).renameStatement b c = x.renameStatement a c := by
  cases x with
  | statement index subfield =>
      have hindex : index ≠ b := fun heq => h (congrArg some heq)
      by_cases ha : index = a
      · simp [renameStatement, ha]
      · simp [renameStatement, ha, hindex]
  | _ => rfl

theorem renameStatement_comm (hac : a ≠ c) (had : a ≠ d) (hbc : b ≠ c)
    (x : Address) :
    (x.renameStatement a b).renameStatement c d =
      (x.renameStatement c d).renameStatement a b := by
  cases x with
  | statement index subfield =>
      by_cases ha : index = a
      · simp [renameStatement, ha, hac, hbc]
      · by_cases hc : index = c
        · simp [renameStatement, hc, hac.symm, had.symm]
        · simp [renameStatement, ha, hc]
  | _ => rfl

end Address

namespace Element

/-!
# Replacing terms
-/

def mapTerms (f : Term -> Term) : Element -> Element :=
  fold (fun t => term (f t)) group

section

variable (f g : Term -> Term)

@[simp] theorem mapTerms_term (t : Term) :
    (term t).mapTerms f = term (f t) := by
  rw [mapTerms, fold_term]

@[simp] theorem mapTerms_group (items : Chain Element) (negated : Bool) :
    (group items negated).mapTerms f =
      group (items.map (mapTerms f)) negated := by
  rw [mapTerms, fold_group]

theorem mapTerms_mapTerms (e : Element) :
    (e.mapTerms f).mapTerms g = e.mapTerms (fun t => g (f t)) := by
  induction e using Element.induction with
  | term t => simp
  | group items negated ih =>
      simp only [mapTerms_group, Chain.map_map]
      rw [Chain.map_congr ih]

theorem mapTerms_id (e : Element) : e.mapTerms (fun t => t) = e := by
  induction e using Element.induction with
  | term t => simp
  | group items negated ih =>
      rw [mapTerms_group, Chain.map_congr ih]
      congr 1
      exact Chain.map_id items

theorem depth_mapTerms (e : Element) : (e.mapTerms f).depth = e.depth := by
  induction e using Element.induction with
  | term t =>
      rw [mapTerms_term]
      rfl
  | group items negated ih =>
      rw [mapTerms_group, depth_group, depth_group, Query.depth_map ih]

end

/-!
# Terms on the statement
-/

variable {a b : String}

theorem renameStatement_eq_mapTerms (a b : String) :
    renameStatement a b = mapTerms (Term.renameStatement a b) := rfl

/-- An element and what it is when one statement is renamed: every term on the
statement is on the other one instead, and nothing else is different. -/
inductive Renamed (old new : String) : Element -> Element -> Prop where
  | statement {subfield : Option Subfield} {operator : Operator} {value : String}
      {negated : Bool} :
      Renamed old new
        (term
          { address := .statement old subfield
            operator := operator
            value := value
            negated := negated })
        (term
          { address := .statement new subfield
            operator := operator
            value := value
            negated := negated })
  | other {t : Term} : t.address.index? ≠ some old ->
      Renamed old new (term t) (term t)
  | group {items items' : Chain Element} {negated : Bool} :
      items.joints.map Prod.fst = items'.joints.map Prod.fst ->
      (forall p, p ∈ items.elements.zip items'.elements ->
        Renamed old new p.1 p.2) ->
      Renamed old new (group items negated) (group items' negated)

theorem renamed_term (t : Term) :
    (term t).Renamed a b (term (t.renameStatement a b)) := by
  by_cases h : t.address.index? = some a
  · rcases t with ⟨address, operator, value, negated⟩
    cases address with
    | statement index subfield =>
        cases h
        rw [Term.renameStatement, Address.renameStatement, if_pos rfl]
        exact Renamed.statement
    | _ => cases h
  · rw [Term.renameStatement, Address.renameStatement_of_ne h]
    exact Renamed.other h

theorem renameStatement_eq_iff {e e' : Element} :
    e.renameStatement a b = e' <-> e.Renamed a b e' := by
  rw [renameStatement_eq_mapTerms]
  induction e using Element.induction generalizing e' with
  | term t =>
      rw [mapTerms_term]
      constructor
      · intro h
        rw [← h]
        exact renamed_term t
      · intro h
        cases h with
        | statement => simp [Term.renameStatement, Address.renameStatement]
        | other hother =>
            rw [Term.renameStatement, Address.renameStatement_of_ne hother]
  | group items negated ih =>
      rw [mapTerms_group]
      constructor
      · intro h
        rw [← h]
        rcases Chain.map_eq_iff.mp (Eq.refl (items.map (mapTerms _))) with
          ⟨hrelations, helements⟩
        apply Renamed.group hrelations
        intro p hp
        exact (ih p.1 (List.of_mem_zip hp).1).mp (helements p hp)
      · intro h
        cases h with
        | group hrelations helements =>
            congr 1
            apply Chain.map_eq_iff.mpr
            refine ⟨hrelations, ?_⟩
            intro p hp
            exact (ih p.1 (List.of_mem_zip hp).1).mpr (helements p hp)

end Element

namespace Query

variable {a b : String}

structure Renamed (old new : String) (q q' : Query) : Prop where
  relations : q.joints.map Prod.fst = q'.joints.map Prod.fst
  elements : forall p, p ∈ q.elements.zip q'.elements -> p.1.Renamed old new p.2

theorem renameStatement_eq_iff {q q' : Query} :
    q.renameStatement a b = q' <-> Renamed a b q q' := by
  rw [renameStatement, Chain.map_eq_iff]
  constructor
  · intro h
    exact ⟨h.1, fun p hp => Element.renameStatement_eq_iff.mp (h.2 p hp)⟩
  · intro h
    exact ⟨h.relations,
      fun p hp => Element.renameStatement_eq_iff.mpr (h.elements p hp)⟩

end Query

end SearchQuery
