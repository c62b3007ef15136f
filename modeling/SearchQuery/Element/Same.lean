import SearchQuery.Element

/-!
# Same search

Two elements are the same search when they look for the same thing, negated or
not.  A group of one element looks for what that element looks for.
-/

namespace SearchQuery

universe u v

namespace Chain

variable {α : Type u} {β : Type v}

/-- Whether a chain of tests and a chain of elements have the same relations and
every test accepts the element in its place. -/
def accepts : Chain (α -> Bool) -> Chain α -> Bool
  | nil, nil => true
  | cons f fs, cons a as =>
      f a && fs.length == as.length &&
        (fs.zip as).all (fun p => p.1.1 == p.2.1 && p.1.2 p.2.2)
  | _, _ => false

theorem accepts_map_iff {same : α -> α -> Bool} {f : α -> β} {c d : Chain α}
    (h : forall a, a ∈ c.elements -> forall b,
      same a b = true <-> f a = f b) :
    (c.map same).accepts d = true <-> c.map f = d.map f := by
  have hjoints : forall js ks : List (Relation × α),
      (forall a, a ∈ js.map Prod.snd -> forall b,
        same a b = true <-> f a = f b) ->
      (((js.map (fun l => (l.1, same l.2))).length = ks.length ∧
        ((js.map (fun l => (l.1, same l.2))).zip ks).all
          (fun p => p.1.1 == p.2.1 && p.1.2 p.2.2) = true) <->
        js.map (fun l => (l.1, f l.2)) = ks.map (fun l => (l.1, f l.2))) := by
    intro js
    induction js with
    | nil =>
        intro ks _
        cases ks <;> simp
    | cons j js ih =>
        intro ks hjs
        cases ks with
        | nil => simp
        | cons k ks =>
            have hj := hjs j.2 List.mem_cons_self k.2
            have hrest := ih ks (fun a ha => hjs a (List.mem_cons_of_mem _ ha))
            simp only [List.map_cons, List.length_cons, List.zip_cons_cons,
              List.all_cons, Bool.and_eq_true, beq_iff_eq, List.cons.injEq,
              Prod.mk.injEq, ← hrest, hj, Nat.succ.injEq]
            exact and_left_comm
  cases c with
  | nil => cases d <;> simp [map, accepts]
  | cons a as =>
      cases d with
      | nil => simp [map, accepts]
      | cons b bs =>
          have ha := h a List.mem_cons_self b
          have hrest := hjoints as bs
            (fun x hx => h x (List.mem_cons_of_mem a hx))
          simp only [map, accepts, Bool.and_eq_true, beq_iff_eq, cons.injEq,
            and_assoc, ha, hrest]

end Chain

namespace Element

def core : Element -> Element
  | group (.cons e []) _ => core e
  | e => e

def isSame : Element -> Element -> Bool :=
  fold
    (fun t e =>
      match e.core with
      | term u => t.isSame u
      | group _ _ => false)
    (fun tests _ =>
      match tests with
      | .cons only [] => only
      | tests => fun e =>
          match e.core with
          | term _ => false
          | group items _ => tests.accepts items)

/-!
# Normal forms
-/

/-- The element without negations and without brackets around single elements, at
every depth. -/
def normal : Element -> Element :=
  fold (fun t => term { t with negated := false })
    (fun items _ =>
      match items with
      | .cons only [] => only
      | items => group items false)

@[simp] theorem normal_term (t : Term) :
    (term t).normal = term { t with negated := false } := by
  rw [normal, fold_term]

theorem normal_group_single (e : Element) (negated : Bool) :
    (group (.single e) negated).normal = e.normal := by
  rw [normal, fold_group]
  rfl

theorem normal_group {items : Chain Element} (h : items.size ≠ 1)
    (negated : Bool) :
    (group items negated).normal = group (items.map normal) false := by
  rw [normal, fold_group]
  split
  next only hsingle =>
    rw [← Chain.size_map (fold _ _), hsingle] at h
    exact absurd rfl h
  next => rfl

theorem normal_group_congr {items items' : Chain Element}
    (h : items.map normal = items'.map normal) (m n : Bool) :
    (group items m).normal = (group items' n).normal := by
  unfold normal at h ⊢
  rw [fold_group, fold_group, h]

/-!
# The test
-/

theorem core_cases (e : Element) :
    (exists t, e.core = term t ∧ e.normal = term { t with negated := false }) ∨
      exists items negated, e.core = group items negated ∧ items.size ≠ 1 ∧
        e.normal = group (items.map normal) false := by
  fun_induction core e with
  | case1 e negated ih =>
      rw [show Chain.cons e [] = Chain.single e from rfl, normal_group_single]
      exact ih
  | case2 e hsingle =>
      cases e with
      | term t => exact Or.inl ⟨t, rfl, normal_term t⟩
      | group items negated =>
          have hsize : items.size ≠ 1 := by
            intro hsize
            rcases Chain.eq_single_of_size hsize with ⟨e, rfl⟩
            exact hsingle e negated rfl
          exact Or.inr ⟨items, negated, rfl, hsize, normal_group hsize negated⟩

theorem isSame_term (t : Term) (e : Element) :
    (term t).isSame e =
      match e.core with
      | term u => t.isSame u
      | group _ _ => false := by
  unfold isSame
  exact congrFun (fold_term _ _ t) e

theorem isSame_group_single (e : Element) (negated : Bool) :
    (group (.single e) negated).isSame = e.isSame := by
  rw [isSame, fold_group]
  rfl

theorem isSame_group {items : Chain Element} (h : items.size ≠ 1)
    (negated : Bool) (e : Element) :
    (group items negated).isSame e =
      match e.core with
      | term _ => false
      | group items' _ => (items.map isSame).accepts items' := by
  rw [isSame, fold_group]
  cases items with
  | nil => rfl
  | cons a as =>
      cases as with
      | nil => exact absurd rfl h
      | cons l as => rfl

theorem isSame_iff {a b : Element} :
    a.isSame b = true <-> a.normal = b.normal := by
  induction a using Element.induction generalizing b with
  | term t =>
      rw [isSame_term, normal_term]
      rcases core_cases b with
        ⟨u, hcore, hnormal⟩ | ⟨items, n, hcore, _, hnormal⟩
      · rw [hcore, hnormal]
        simp [Term.isSame_iff]
      · rw [hcore, hnormal]
        simp
  | group items negated ih =>
      by_cases hsize : items.size = 1
      · rcases Chain.eq_single_of_size hsize with ⟨e, rfl⟩
        rw [isSame_group_single, normal_group_single]
        exact ih e List.mem_cons_self
      · rw [isSame_group hsize, normal_group hsize]
        rcases core_cases b with
          ⟨u, hcore, hnormal⟩ | ⟨items', n, hcore, _, hnormal⟩
        · rw [hcore, hnormal]
          simp
        · rw [hcore, hnormal]
          simp [Chain.accepts_map_iff (fun e he b => ih e he)]

end Element

end SearchQuery
