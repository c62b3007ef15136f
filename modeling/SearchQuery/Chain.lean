/-!
# Relations and keywords

Two neighbouring elements of a query are joined by `AND` or `OR`.  Together
with `NOT`, these are the only words that the query language reserves, and
they are reserved only where an element can begin.
-/

namespace SearchQuery

inductive Relation where
  | and
  | or
  deriving DecidableEq, Inhabited, Repr

namespace Relation

def keyword : Relation -> String
  | and => "AND"
  | or => "OR"

def name : Relation -> String
  | and => "and"
  | or => "or"

def ofName? : String -> Option Relation
  | "and" => some and
  | "or" => some or
  | _ => none

theorem ofName?_name (r : Relation) : ofName? r.name = some r := by
  cases r <;> rfl

end Relation

inductive Keyword where
  | not
  | relation (relation : Relation)
  deriving DecidableEq, Repr

namespace Keyword

def word : Keyword -> String
  | not => "NOT"
  | relation r => r.keyword

def ofWord? (word : List Char) : Option Keyword :=
  if word = ['N', 'O', 'T'] then some not
  else if word = ['A', 'N', 'D'] then some (relation .and)
  else if word = ['O', 'R'] then some (relation .or)
  else none

theorem ofWord?_word (k : Keyword) : ofWord? k.word.toList = some k := by
  rcases k with _ | ⟨_ | _⟩ <;> decide

theorem ofWord?_eq_some_iff {word : List Char} {k : Keyword} :
    ofWord? word = some k <-> word = k.word.toList := by
  constructor
  · intro h
    unfold ofWord? at h
    split at h
    next hw => cases h; exact hw
    split at h
    next hw => cases h; exact hw
    split at h
    next hw => cases h; exact hw
    cases h
  · intro h
    rw [h, ofWord?_word]

end Keyword

/-!
# Chains

A chain is a sequence of elements with a relation between any two neighbours.
The type holds no relation in front of the first element and none after the
last, so a chain always alternates.  A chain is extended at its end; the
relation given for the element that comes first is not kept.
-/

universe u v w

/-- Elements joined by relations: `first`, then each further element with the
relation that joins it to its predecessor. -/
inductive Chain (α : Type u) where
  | nil
  | cons (first : α) (rest : List (Relation × α))
  deriving DecidableEq, Repr

namespace Chain

variable {α : Type u} {β : Type v}

instance : Inhabited (Chain α) := ⟨nil⟩

def single (a : α) : Chain α :=
  cons a []

def isEmpty : Chain α -> Bool
  | nil => true
  | cons _ _ => false

def size : Chain α -> Nat
  | nil => 0
  | cons _ rest => rest.length + 1

def elements : Chain α -> List α
  | nil => []
  | cons a rest => a :: rest.map Prod.snd

/-- The elements in order, each with the relation to its predecessor; the first
element has none. -/
def links : Chain α -> List (Option Relation × α)
  | nil => []
  | cons a rest => (none, a) :: rest.map (fun l => (some l.1, l.2))

/-!
# Joints

A joint is an element with a relation in front of it.  Reading a list of joints
as a chain forgets the first relation; listing a chain puts `AND` in its place.
-/

def joints : Chain α -> List (Relation × α)
  | nil => []
  | cons a rest => (.and, a) :: rest

def ofJoints : List (Relation × α) -> Chain α
  | [] => nil
  | (_, a) :: rest => cons a rest

def push (c : Chain α) (r : Relation) (a : α) : Chain α :=
  match c with
  | nil => single a
  | cons first rest => cons first (rest ++ [(r, a)])

def add (c : Chain α) (r? : Option Relation) (a : α) : Chain α :=
  c.push (r?.getD .and) a

def extend (c : Chain α) (r : Relation) (as : List α) : Chain α :=
  as.foldl (fun c a => c.push r a) c

def map (f : α -> β) : Chain α -> Chain β
  | nil => nil
  | cons a rest => cons (f a) (rest.map (fun l => (l.1, f l.2)))

/-- Keep the elements that `f` keeps.  An element that is dropped takes its
relation along, and the element that comes first then loses its own. -/
def filterMap (f : α -> Option β) (c : Chain α) : Chain β :=
  ofJoints (c.joints.filterMap (fun l => (f l.2).map (fun b => (l.1, b))))

@[simp] theorem ofJoints_joints (c : Chain α) : ofJoints c.joints = c := by
  cases c <;> rfl

@[simp] theorem size_eq_length_elements (c : Chain α) :
    c.elements.length = c.size := by
  cases c <;> simp [elements, size]

@[simp] theorem map_snd_links (c : Chain α) :
    c.links.map Prod.snd = c.elements := by
  cases c <;> simp [links, elements]

@[simp] theorem map_snd_joints (c : Chain α) :
    c.joints.map Prod.snd = c.elements := by
  cases c <;> simp [joints, elements]

@[simp] theorem elements_map (f : α -> β) (c : Chain α) :
    (c.map f).elements = c.elements.map f := by
  cases c <;> simp [map, elements]

theorem map_map {γ : Type w} (f : α -> β) (g : β -> γ) (c : Chain α) :
    (c.map f).map g = c.map (fun a => g (f a)) := by
  cases c with
  | nil => rfl
  | cons a rest => simp [map]

theorem map_id (c : Chain α) : c.map id = c := by
  cases c <;> simp [map]

theorem map_congr {f g : α -> β} {c : Chain α}
    (h : forall a, a ∈ c.elements -> f a = g a) : c.map f = c.map g := by
  cases c with
  | nil => rfl
  | cons a rest =>
      have ha := h a (by simp [elements])
      have hrest : rest.map (fun l => (l.1, f l.2)) =
          rest.map (fun l => (l.1, g l.2)) :=
        List.map_congr_left (fun l hl => by
          rw [h l.2 (by
            simp only [elements, List.mem_cons, List.mem_map]
            exact Or.inr ⟨l, hl, rfl⟩)])
      simp only [map, ha, hrest]

/-!
# Equal images
-/

theorem eq_single_of_size {c : Chain α} (h : c.size = 1) :
    exists a, c = single a := by
  cases c with
  | nil => cases h
  | cons a rest =>
      have hrest : rest = [] := List.eq_nil_of_length_eq_zero (Nat.succ.inj h)
      rw [hrest]
      exact ⟨a, rfl⟩

theorem size_map (f : α -> β) (c : Chain α) : (c.map f).size = c.size := by
  rw [← size_eq_length_elements, elements_map, List.length_map,
    size_eq_length_elements]

theorem joints_map (f : α -> β) (c : Chain α) :
    (c.map f).joints = c.joints.map (fun l => (l.1, f l.2)) := by
  cases c <;> rfl

theorem joints_inj {c d : Chain α} : c.joints = d.joints <-> c = d := by
  constructor
  · intro h
    rw [← ofJoints_joints c, h, ofJoints_joints]
  · intro h
    rw [h]

theorem map_joints_eq_iff {f : α -> β} {js : List (Relation × α)}
    {ks : List (Relation × β)} :
    js.map (fun l => (l.1, f l.2)) = ks <->
      js.map Prod.fst = ks.map Prod.fst ∧
        forall p, p ∈ (js.map Prod.snd).zip (ks.map Prod.snd) -> f p.1 = p.2 := by
  induction js generalizing ks with
  | nil => cases ks <;> simp
  | cons j js ih =>
      cases ks with
      | nil => simp
      | cons k ks =>
          rcases k with ⟨r, b⟩
          simp only [List.map_cons, List.cons.injEq, Prod.mk.injEq, ih,
            List.zip_cons_cons, List.forall_mem_cons]
          exact and_and_and_comm

/-- A chain is the image of another when it has the same relations, and in each
place the image of the element there. -/
theorem map_eq_iff {f : α -> β} {c : Chain α} {d : Chain β} :
    c.map f = d <->
      c.joints.map Prod.fst = d.joints.map Prod.fst ∧
        forall p, p ∈ c.elements.zip d.elements -> f p.1 = p.2 := by
  rw [← joints_inj, joints_map, map_joints_eq_iff, map_snd_joints,
    map_snd_joints]

theorem map_eq_map_iff {f : α -> β} {c d : Chain α} :
    c.map f = d.map f <->
      c.joints.map Prod.fst = d.joints.map Prod.fst ∧
        forall p, p ∈ c.elements.zip d.elements -> f p.1 = f p.2 := by
  have hrelations : (d.map f).joints.map Prod.fst = d.joints.map Prod.fst := by
    rw [joints_map, List.map_map]
    rfl
  rw [map_eq_iff, hrelations, elements_map, List.zip_map_right,
    List.forall_mem_map]
  rfl

/-!
# Entries

Written out flat, a chain is a sequence of entries, each an element or a
relation.
-/

inductive Entry (α : Type u) where
  | element (element : α)
  | relation (relation : Relation)
  deriving DecidableEq, Repr

def entries : Chain α -> List (Entry α)
  | nil => []
  | cons a rest =>
      .element a :: rest.flatMap (fun l => [.relation l.1, .element l.2])

end Chain

end SearchQuery
