import SearchQuery.Chain
import SearchQuery.Term

/-!
# Elements and queries

An element of a query is a term or a group, and a group is again a chain of
elements in brackets.  A query is the chain at the top.  Functions on the tree
are folds: one value for a term, and one for a group from the values of its
elements.
-/

namespace SearchQuery

universe v

inductive Element where
  | term (term : Term)
  | group (items : Chain Element) (negated : Bool)
  deriving Repr

abbrev Query := Chain Element

namespace Element

instance : Inhabited Element := ⟨group .nil false⟩

/-!
# Folding and induction
-/

mutual

/-- Replace every term by `leaf` and every group by `node`, from the leaves
upwards. -/
def fold {β : Type v} (leaf : Term -> β) (node : Chain β -> Bool -> β) :
    Element -> β
  | term t => leaf t
  | group items negated => node (foldChain leaf node items) negated

def foldChain {β : Type v} (leaf : Term -> β) (node : Chain β -> Bool -> β) :
    Chain Element -> Chain β
  | .nil => .nil
  | .cons e rest => .cons (fold leaf node e) (foldJoints leaf node rest)

def foldJoints {β : Type v} (leaf : Term -> β) (node : Chain β -> Bool -> β) :
    List (Relation × Element) -> List (Relation × β)
  | [] => []
  | (r, e) :: rest => (r, fold leaf node e) :: foldJoints leaf node rest

end

section Fold

variable {β : Type v} (leaf : Term -> β) (node : Chain β -> Bool -> β)

theorem foldJoints_eq (rest : List (Relation × Element)) :
    foldJoints leaf node rest =
      rest.map (fun l => (l.1, fold leaf node l.2)) := by
  induction rest with
  | nil => rfl
  | cons l rest ih =>
      rcases l with ⟨r, e⟩
      rw [foldJoints, ih, List.map_cons]

theorem foldChain_eq (items : Chain Element) :
    foldChain leaf node items = items.map (fold leaf node) := by
  cases items with
  | nil => rfl
  | cons e rest =>
      rw [foldChain, foldJoints_eq]
      rfl

@[simp] theorem fold_term (t : Term) : fold leaf node (term t) = leaf t := by
  rw [fold]

@[simp] theorem fold_group (items : Chain Element) (negated : Bool) :
    fold leaf node (group items negated) =
      node (items.map (fold leaf node)) negated := by
  rw [fold, foldChain_eq]

end Fold

/-- Induction over the tree, with the hypothesis at every element of a group. -/
theorem induction {motive : Element -> Prop}
    (term : forall t, motive (term t))
    (group : forall items negated,
      (forall e, e ∈ items.elements -> motive e) -> motive (group items negated))
    (e : Element) : motive e :=
  Element.rec
    (motive_1 := motive)
    (motive_2 := fun items => forall e, e ∈ items.elements -> motive e)
    (motive_3 := fun rest => forall l, l ∈ rest -> motive l.2)
    (motive_4 := fun l => motive l.2)
    term
    (fun items negated ih => group items negated ih)
    (by simp [Chain.elements])
    (fun first rest hfirst hrest e he => by
      simp only [Chain.elements, List.mem_cons, List.mem_map] at he
      rcases he with rfl | ⟨l, hl, rfl⟩
      · exact hfirst
      · exact hrest l hl)
    (by simp)
    (fun l rest hl hrest x hx => by
      rcases List.mem_cons.mp hx with rfl | hx
      · exact hl
      · exact hrest x hx)
    (fun _ _ he => he)
    e

/-!
# Parts of an element
-/

def negated : Element -> Bool
  | term t => t.negated
  | group _ n => n

def depth : Element -> Nat :=
  fold (fun _ => 0) (fun ds _ => 1 + ds.elements.foldr max 0)

def isEmpty : Element -> Bool
  | term t => t.isBlank
  | group items _ => items.isEmpty

/-!
# Equality
-/

mutual

private def decEq : (a b : Element) -> Decidable (a = b)
  | term t, term u =>
      if h : t = u then isTrue (by rw [h]) else isFalse (by simpa using h)
  | group c m, group d n =>
      match decEqChain c d, (inferInstance : Decidable (m = n)) with
      | isTrue h, isTrue k => isTrue (by rw [h, k])
      | isFalse h, _ => isFalse (fun e => h (by cases e; rfl))
      | _, isFalse k => isFalse (fun e => k (by cases e; rfl))
  | term _, group _ _ => isFalse (by simp)
  | group _ _, term _ => isFalse (by simp)

private def decEqChain : (c d : Chain Element) -> Decidable (c = d)
  | .nil, .nil => isTrue rfl
  | .cons a as, .cons b bs =>
      match decEq a b, decEqJoints as bs with
      | isTrue h, isTrue k => isTrue (by rw [h, k])
      | isFalse h, _ => isFalse (fun e => h (by cases e; rfl))
      | _, isFalse k => isFalse (fun e => k (by cases e; rfl))
  | .nil, .cons _ _ => isFalse (by simp)
  | .cons _ _, .nil => isFalse (by simp)

private def decEqJoints :
    (c d : List (Relation × Element)) -> Decidable (c = d)
  | [], [] => isTrue rfl
  | (r, a) :: as, (s, b) :: bs =>
      match (inferInstance : Decidable (r = s)), decEq a b, decEqJoints as bs with
      | isTrue h, isTrue k, isTrue l => isTrue (by rw [h, k, l])
      | isFalse h, _, _ => isFalse (fun e => h (by cases e; rfl))
      | _, isFalse k, _ => isFalse (fun e => k (by cases e; rfl))
      | _, _, isFalse l => isFalse (fun e => l (by cases e; rfl))
  | [], _ :: _ => isFalse (by simp)
  | _ :: _, [] => isFalse (by simp)

end

instance : DecidableEq Element := decEq

end Element

namespace Query

def depth (q : Query) : Nat :=
  (q.elements.map Element.depth).foldr max 0

/-- A query came from the simple search box when one of its own terms addresses
all indexed text. -/
def isSimple (q : Query) : Bool :=
  q.elements.any (fun e =>
    match e with
    | .term t => t.address == .field .all
    | .group _ _ => false)

def toElement (q : Query) (negated : Bool) : Element :=
  .group q negated

theorem depth_map {q : Query} {f : Element -> Element}
    (h : forall e, e ∈ q.elements -> (f e).depth = e.depth) :
    Query.depth (q.map f) = q.depth := by
  rw [depth, depth, Chain.elements_map, List.map_map]
  congr 1
  exact List.map_congr_left h

end Query

theorem Element.depth_group (items : Chain Element) (negated : Bool) :
    (group items negated).depth = 1 + Query.depth items := by
  rw [depth, fold_group, Chain.elements_map]
  rfl

end SearchQuery
