import Mathlib.Data.List.Basic
import SearchQuery.Element.Text

/-!
# Leaves and pruning

The leaves of a tree are its terms from left to right.  A group without leaves
is written as nothing, so a tree has the same text as the tree that is left when
all such groups are dropped.
-/

namespace SearchQuery

universe u v w

namespace Chain

variable {α : Type u} {β : Type v} {γ : Type w}

theorem ofJoints_filterMap_joints (f : α -> Option β)
    (js : List (Relation × α)) :
    (ofJoints js).filterMap f =
      ofJoints (js.filterMap
        (fun l => (f l.2).map (fun b => (l.1, b)))) := by
  cases js with
  | nil => rfl
  | cons l rest =>
      rcases l with ⟨r, a⟩
      cases h : f a with
      | none => simp [filterMap, ofJoints, joints, h]
      | some b => simp [filterMap, ofJoints, joints, h]

theorem filterMap_filterMap (f : α -> Option β) (g : β -> Option γ)
    (c : Chain α) :
    (c.filterMap f).filterMap g = c.filterMap (fun a => (f a).bind g) := by
  apply (ofJoints_filterMap_joints g _).trans
  rw [List.filterMap_filterMap, filterMap]
  congr 2
  funext l
  cases f l.2 <;> rfl

theorem filterMap_map (f : α -> β) (g : β -> Option γ) (c : Chain α) :
    (c.map f).filterMap g = c.filterMap (fun a => g (f a)) := by
  cases c with
  | nil => rfl
  | cons a rest =>
      simp only [filterMap, map, joints, List.filterMap_cons,
        List.filterMap_map]
      rfl

theorem map_filterMap (f : α -> Option β) (g : β -> γ) (c : Chain α) :
    (c.filterMap f).map g = c.filterMap (fun a => (f a).map g) := by
  have hmap : forall js : List (Relation × β), (ofJoints js).map g =
      ofJoints (js.map (fun l => (l.1, g l.2))) := by
    intro js
    cases js <;> rfl
  rw [filterMap, hmap, List.map_filterMap, filterMap]
  congr 2
  funext l
  cases f l.2 <;> rfl

theorem elements_ofJoints (js : List (Relation × α)) :
    (ofJoints js).elements = js.map Prod.snd := by
  cases js <;> rfl

theorem elements_filterMap (f : α -> Option β) (c : Chain α) :
    (c.filterMap f).elements = c.elements.filterMap f := by
  rw [filterMap, elements_ofJoints, List.map_filterMap, ← map_snd_joints,
    List.filterMap_map]
  congr 1
  funext l
  show Option.map Prod.snd (Option.map (fun b => (l.1, b)) (f l.2)) = f l.2
  cases f l.2 <;> rfl

theorem filterMap_congr {f g : α -> Option β} {c : Chain α}
    (h : forall a, a ∈ c.elements -> f a = g a) :
    c.filterMap f = c.filterMap g := by
  rw [filterMap, filterMap]
  congr 1
  apply List.filterMap_congr
  intro l hl
  rw [← map_snd_joints] at h
  rw [h l.2 (List.mem_map_of_mem hl)]

theorem filterMap_some (c : Chain α) : c.filterMap some = c := by
  have hsome : c.joints.filterMap (fun l => some l) = c.joints :=
    List.filterMap_some
  exact (congrArg ofJoints hsome).trans c.ofJoints_joints

theorem joinChars_cons {text : List Char}
    {rest : List (Relation × List Char)}
    (h : forall t, t ∈ (cons text rest).elements -> t ≠ []) :
    (cons text rest).joinChars =
      text ++ rest.flatMap (fun l =>
        ' ' :: l.1.keyword.toList ++ ' ' :: l.2) := by
  have hkeep : (cons text rest).filterMap
      (fun t => if t = [] then none else some t) = cons text rest := by
    rw [filterMap_congr (g := some), filterMap_some]
    intro t ht
    rw [if_neg (h t ht)]
  rw [joinChars, hkeep]

theorem joinChars_eq_nil_iff {texts : Chain (List Char)} :
    texts.joinChars = [] <-> forall t, t ∈ texts.elements -> t = [] := by
  have hmem : forall t, t ∈ (texts.filterMap
      (fun t => if t = [] then none else some t)).elements <->
        t ∈ texts.elements ∧ t ≠ [] := by
    intro t
    rw [elements_filterMap, List.mem_filterMap]
    constructor
    · intro hparts
      rcases hparts with ⟨s, hs, hst⟩
      split at hst
      · cases hst
      next hne =>
        cases hst
        exact ⟨hs, hne⟩
    · intro hparts
      rcases hparts with ⟨ht, hne⟩
      exact ⟨t, ht, if_neg hne⟩
  unfold joinChars
  split
  next hnil =>
    rw [hnil] at hmem
    refine ⟨fun _ t ht => ?_, fun _ => rfl⟩
    exact Classical.byContradiction fun hne =>
      List.not_mem_nil ((hmem t).mpr ⟨ht, hne⟩)
  next text rest hcons =>
    rw [hcons] at hmem
    rcases (hmem text).mp List.mem_cons_self with ⟨htext, hne⟩
    constructor
    · intro h
      exact absurd (List.append_eq_nil_iff.mp h).1 hne
    · intro h
      exact absurd (h text htext) hne

end Chain

namespace Element

/-!
# Leaves
-/

def leaves : Element -> List Term :=
  fold (fun t => [t]) (fun leaves _ => leaves.elements.flatten)

@[simp] theorem leaves_term (t : Term) : (term t).leaves = [t] := by
  rw [leaves, fold_term]

@[simp] theorem leaves_group (items : Chain Element) (negated : Bool) :
    (group items negated).leaves = items.elements.flatMap leaves := by
  rw [leaves, fold_group, Chain.elements_map, List.flatMap_def]

/-- An element without empty groups whose terms are all of a kind. -/
inductive Full (P : Term -> Prop) : Element -> Prop where
  | term {t : Term} : P t -> Full P (term t)
  | group {items : Chain Element} {negated : Bool} : items ≠ .nil ->
      (forall e, e ∈ items.elements -> Full P e) ->
      Full P (group items negated)

namespace Full

variable {P Q : Term -> Prop} {e : Element}

theorem leaves_ne_nil (h : e.Full P) : e.leaves ≠ [] := by
  induction h with
  | term => simp
  | @group items negated hne _ ih =>
      cases items with
      | nil => exact absurd rfl hne
      | cons e rest =>
          intro hnil
          rw [leaves_group, List.flatMap_eq_nil_iff] at hnil
          exact ih e List.mem_cons_self (hnil e List.mem_cons_self)

theorem of_mem_leaves (h : e.Full P) {t : Term} (ht : t ∈ e.leaves) :
    P t := by
  induction h with
  | @term u hu =>
      rw [leaves_term, List.mem_singleton] at ht
      rw [ht]
      exact hu
  | @group items negated _ _ ih =>
      rw [leaves_group, List.mem_flatMap] at ht
      rcases ht with ⟨e, he, ht⟩
      exact ih e he ht

theorem of_leaves (h : e.Full P) (hleaves : forall t, t ∈ e.leaves -> Q t) :
    e.Full Q := by
  induction h with
  | @term u hu => exact Full.term (hleaves u (by simp))
  | @group items negated hne _ ih =>
      apply Full.group hne
      intro e he
      apply ih e he
      intro t ht
      apply hleaves
      rw [leaves_group, List.mem_flatMap]
      exact ⟨e, he, ht⟩

end Full

/-!
# Pruning
-/

/-- An element without the groups in it that have no leaves.  Nothing is left of
an element that has none itself. -/
def prune? : Element -> Option Element :=
  fold (fun t => some (term t)) (fun items negated =>
    match items.filterMap id with
    | .nil => none
    | items => some (group items negated))

@[simp] theorem prune?_term (t : Term) :
    (term t).prune? = some (term t) := by
  rw [prune?, fold_term]

theorem prune?_group (items : Chain Element) (negated : Bool) :
    (group items negated).prune? =
      match items.filterMap prune? with
      | .nil => none
      | items => some (group items negated) := by
  rw [prune?, fold_group, Chain.filterMap_map]
  rfl

theorem prune?_group_eq_some_iff {items : Chain Element} {negated : Bool}
    {e : Element} :
    (group items negated).prune? = some e <->
      items.filterMap prune? ≠ .nil ∧
        e = group (items.filterMap prune?) negated := by
  rw [prune?_group]
  cases items.filterMap prune? with
  | nil => simp
  | cons first rest => simp [eq_comm]

theorem prune?_group_eq_none_iff {items : Chain Element} {negated : Bool} :
    (group items negated).prune? = none <->
      items.filterMap prune? = .nil := by
  rw [prune?_group]
  cases items.filterMap prune? with
  | nil => simp
  | cons first rest => simp

theorem full_of_prune? {P : Term -> Prop} {e e' : Element}
    (h : e.prune? = some e') (hleaves : forall t, t ∈ e.leaves -> P t) :
    e'.Full P := by
  induction e using Element.induction generalizing e' with
  | term t =>
      rw [prune?_term] at h
      cases h
      exact Full.term (hleaves t (by simp))
  | group items negated ih =>
      rcases prune?_group_eq_some_iff.mp h with ⟨hne, rfl⟩
      apply Full.group hne
      intro a ha
      rw [Chain.elements_filterMap, List.mem_filterMap] at ha
      rcases ha with ⟨b, hb, hab⟩
      apply ih b hb hab
      intro t ht
      apply hleaves
      rw [leaves_group, List.mem_flatMap]
      exact ⟨b, hb, ht⟩

theorem flatMap_filterMap {α β γ : Type} {l : List α} {f : α -> Option β}
    {g : β -> List γ} {h : α -> List γ}
    (heq : forall a, a ∈ l -> ((f a).elim [] g) = h a) :
    (l.filterMap f).flatMap g = l.flatMap h := by
  induction l with
  | nil => rfl
  | cons a l ih =>
      have ha := heq a List.mem_cons_self
      have hl := ih (fun b hb => heq b (List.mem_cons_of_mem a hb))
      rw [List.flatMap_cons, ← ha, ← hl]
      cases hf : f a with
      | none => rw [List.filterMap_cons_none hf, Option.elim_none,
          List.nil_append]
      | some b => rw [List.filterMap_cons_some hf, List.flatMap_cons,
          Option.elim_some]

theorem leaves_prune? (e : Element) : e.prune?.elim [] leaves = e.leaves := by
  induction e using Element.induction with
  | term t => rw [prune?_term, Option.elim_some]
  | group items negated ih =>
      have hleaves : (items.filterMap prune?).elements.flatMap leaves =
          items.elements.flatMap leaves := by
        rw [Chain.elements_filterMap]
        exact flatMap_filterMap ih
      rw [leaves_group, ← hleaves]
      cases h : (group items negated).prune? with
      | none =>
          rw [prune?_group_eq_none_iff.mp h]
          rfl
      | some e =>
          rcases prune?_group_eq_some_iff.mp h with ⟨_, rfl⟩
          rw [Option.elim_some, leaves_group]

/-!
# Texts
-/

variable (write : List Char -> List Char)

@[simp] theorem charsWith_term (t : Term) :
    (term t).charsWith write = t.charsWith write := by
  rw [charsWith, fold_term]

theorem charsWith_group (items : Chain Element) (negated : Bool) :
    (group items negated).charsWith write =
      match (items.map (charsWith write)).joinChars with
      | [] => []
      | inner => negation negated ++ '(' :: inner ++ [')'] := by
  unfold charsWith
  exact fold_group _ _ _ _

end Element

namespace Chain

theorem joinChars_filterMap {α : Type u} {c : Chain α} {f : α -> Option α}
    {g : α -> List Char}
    (h : forall a, a ∈ c.elements -> (f a).elim [] g = g a) :
    ((c.filterMap f).map g).joinChars = (c.map g).joinChars := by
  have hkeep : ((c.filterMap f).map g).filterMap
        (fun t => if t = [] then none else some t) =
      (c.map g).filterMap (fun t => if t = [] then none else some t) := by
    rw [map_filterMap, filterMap_filterMap, filterMap_map]
    apply filterMap_congr
    intro a ha
    rw [← h a ha]
    cases f a with
    | none => rfl
    | some b => rfl
  rw [joinChars, hkeep, joinChars]

end Chain

namespace Element

/-- An element is written like what pruning leaves of it. -/
theorem charsWith_prune? (write : List Char -> List Char) (e : Element) :
    e.prune?.elim [] (charsWith write) = e.charsWith write := by
  induction e using Element.induction with
  | term t => rw [prune?_term, Option.elim_some]
  | group items negated ih =>
      have hjoin := Chain.joinChars_filterMap ih
      rw [charsWith_group, ← hjoin]
      cases h : (group items negated).prune? with
      | none =>
          rw [prune?_group_eq_none_iff.mp h]
          rfl
      | some e =>
          rcases prune?_group_eq_some_iff.mp h with ⟨_, rfl⟩
          rw [Option.elim_some, charsWith_group]

end Element

namespace Query

def leaves (q : Query) : List Term :=
  q.elements.flatMap Element.leaves

def prune (q : Query) : Query :=
  q.filterMap Element.prune?

def Full (P : Term -> Prop) (q : Query) : Prop :=
  forall e, e ∈ q.elements -> e.Full P

theorem Full.of_leaves {P Q : Term -> Prop} {q : Query} (h : q.Full P)
    (hleaves : forall t, t ∈ q.leaves -> Q t) : q.Full Q := by
  intro e he
  apply (h e he).of_leaves
  intro t ht
  exact hleaves t (List.mem_flatMap.mpr ⟨e, he, ht⟩)

variable (q : Query)

theorem full_prune {P : Term -> Prop} (h : forall t, t ∈ q.leaves -> P t) :
    q.prune.Full P := by
  intro e he
  rw [prune, Chain.elements_filterMap, List.mem_filterMap] at he
  rcases he with ⟨a, ha, hprune⟩
  apply Element.full_of_prune? hprune
  intro t ht
  exact h t (List.mem_flatMap.mpr ⟨a, ha, ht⟩)

theorem leaves_prune : q.prune.leaves = q.leaves := by
  rw [leaves, prune, Chain.elements_filterMap]
  apply Element.flatMap_filterMap
  intro e _
  exact Element.leaves_prune? e

theorem charsWith_prune (write : List Char -> List Char) :
    q.prune.charsWith write = q.charsWith write := by
  rw [charsWith, prune, Chain.joinChars_filterMap, charsWith]
  intro e _
  exact Element.charsWith_prune? write e

theorem text_prune : q.prune.text = q.text := by
  rw [text, chars, charsWith_prune, text, chars]

end Query

end SearchQuery
