import Mathlib.Data.List.Chain
import SearchQuery.Chain

/-!
# Sequences of entries

A sequence of entries can be extended and read off without a chain: it grows at
its end by a relation and an element, and one pass over it gives its links.  Both
do the same as on a chain that is written out, and the sequences that alternate
are the chains that are written out.
-/

namespace SearchQuery

universe u v

namespace Chain

namespace Entry

variable {α : Type u} {β : Type v}

def isElement : Entry α -> Bool
  | element _ => true
  | relation _ => false

def map (f : α -> β) : Entry α -> Entry β
  | element a => element (f a)
  | relation r => relation r

def add (es : List (Entry α)) (r? : Option Relation) (a : α) :
    List (Entry α) :=
  if es.isEmpty then [element a]
  else es ++ [relation (r?.getD .and), element a]

def extend (es : List (Entry α)) (r : Relation) (as : List α) :
    List (Entry α) :=
  as.foldl (fun es a => add es (some r) a) es

/-- The elements of a sequence, each with the last relation that was passed since
the element before it. -/
def linksFrom : Option Relation -> List (Entry α) ->
    List (Option Relation × α)
  | _, [] => []
  | _, relation r :: es => linksFrom (some r) es
  | r?, element a :: es => (r?, a) :: linksFrom none es

def links (es : List (Entry α)) : List (Option Relation × α) :=
  linksFrom none es

def interleave (ls : List (Option Relation × α)) : List (Entry α) :=
  ls.flatMap (fun l => (l.1.map relation).toList ++ [element l.2])

structure Alternates (es : List (Entry α)) : Prop where
  head : forall e, es.head? = some e -> e.isElement = true
  last : forall e, es.getLast? = some e -> e.isElement = true
  adjacent : es.IsChain (fun a b => a.isElement ≠ b.isElement)

/-- What alternates has as many links as elements; all of them but the first have
a relation; and nothing else is in it. -/
structure Orderly (es : List (Entry α)) : Prop extends Alternates es where
  length : (es.length + 1) / 2 = (links es).length
  none_iff : forall i l, (links es)[i]? = some l -> (l.1 = none <-> i = 0)
  interleave : interleave (links es) = es

end Entry

/-!
# Chains written out
-/

section Entries

variable {α : Type u} {β : Type v}

def jointEntries (js : List (Relation × α)) : List (Entry α) :=
  js.flatMap (fun l => [.relation l.1, .element l.2])

theorem jointEntries_cons (r : Relation) (a : α) (js : List (Relation × α)) :
    jointEntries ((r, a) :: js) =
      .relation r :: .element a :: jointEntries js := rfl

theorem entries_cons (a : α) (rest : List (Relation × α)) :
    (cons a rest).entries = .element a :: jointEntries rest := rfl

theorem entries_add (c : Chain α) (r? : Option Relation) (a : α) :
    (c.add r? a).entries = Entry.add c.entries r? a := by
  cases c with
  | nil => rfl
  | cons first rest =>
      show _ :: jointEntries (rest ++ [(r?.getD .and, a)]) = _
      rw [jointEntries, List.flatMap_append]
      rfl

theorem entries_extend (c : Chain α) (r : Relation) (as : List α) :
    (c.extend r as).entries = Entry.extend c.entries r as := by
  induction as generalizing c with
  | nil => rfl
  | cons a as ih =>
      show ((c.add (some r) a).extend r as).entries = _
      rw [ih, entries_add]
      rfl

theorem map_add (f : α -> β) (c : Chain α) (r? : Option Relation) (a : α) :
    (c.add r? a).map f = (c.map f).add r? (f a) := by
  cases c with
  | nil => rfl
  | cons first rest => simp [add, push, map]

theorem map_extend (f : α -> β) (c : Chain α) (r : Relation) (as : List α) :
    (c.extend r as).map f = (c.map f).extend r (as.map f) := by
  induction as generalizing c with
  | nil => rfl
  | cons a as ih =>
      show ((c.add (some r) a).extend r as).map f = _
      rw [ih, map_add]
      rfl

theorem entries_map (f : α -> β) (c : Chain α) :
    (c.map f).entries = c.entries.map (Entry.map f) := by
  cases c with
  | nil => rfl
  | cons a rest =>
      rw [map, entries_cons, entries_cons, List.map_cons]
      congr 1
      rw [jointEntries, jointEntries, List.flatMap_map, List.map_flatMap]
      rfl

theorem element_mem_entries_iff {c : Chain α} {a : α} :
    Entry.element a ∈ c.entries <-> a ∈ c.elements := by
  cases c with
  | nil => simp [entries, elements]
  | cons first rest => simp [entries, elements, eq_comm]

theorem length_entries (c : Chain α) : (c.entries.length + 1) / 2 = c.size := by
  cases c with
  | nil => simp [entries, size]
  | cons a rest =>
      have hrest : (jointEntries rest).length = 2 * rest.length := by
        induction rest with
        | nil => rfl
        | cons l rest ih =>
            rw [jointEntries_cons, List.length_cons, List.length_cons, ih,
              List.length_cons]
            omega
      rw [entries_cons, List.length_cons, hrest, size]
      omega

theorem links_entries (c : Chain α) : Entry.links c.entries = c.links := by
  cases c with
  | nil => rfl
  | cons a rest =>
      have hrest : Entry.linksFrom none (jointEntries rest) =
          rest.map (fun l => (some l.1, l.2)) := by
        induction rest with
        | nil => rfl
        | cons l rest ih =>
            rw [jointEntries_cons, Entry.linksFrom, Entry.linksFrom, ih,
              List.map_cons]
      rw [entries_cons, Entry.links, Entry.linksFrom, hrest, links]

theorem interleave_links (c : Chain α) :
    Entry.interleave c.links = c.entries := by
  cases c with
  | nil => rfl
  | cons a rest =>
      rw [links, Entry.interleave, List.flatMap_cons, List.flatMap_map]
      rfl

theorem links_none_iff {c : Chain α} {i : Nat} {l : Option Relation × α}
    (h : c.links[i]? = some l) : l.1 = none <-> i = 0 := by
  cases c with
  | nil => cases h
  | cons a rest =>
      cases i with
      | zero =>
          cases h
          simp
      | succ i =>
          rw [links, List.getElem?_cons_succ, List.getElem?_map] at h
          rcases Option.map_eq_some_iff.mp h with ⟨j, _, rfl⟩
          simp

theorem foldl_add_cons (a : α) (rest : List (Relation × α))
    (ls : List (Option Relation × α)) :
    ls.foldl (fun c l => c.add l.1 l.2) (cons a rest) =
      cons a (rest ++ ls.map (fun l => (l.1.getD .and, l.2))) := by
  induction ls generalizing rest with
  | nil => rw [List.foldl_nil, List.map_nil, List.append_nil]
  | cons l ls ih =>
      rw [List.foldl_cons, add, push, ih, List.append_assoc]
      rfl

theorem foldl_add_joints (js : List (Relation × α)) :
    js.foldl (fun c l => c.add (some l.1) l.2) nil = ofJoints js := by
  cases js with
  | nil => rfl
  | cons l js =>
      have hrest := foldl_add_cons l.2 []
        (js.map (fun l => (some l.1, l.2)))
      rw [List.foldl_map, List.map_map] at hrest
      apply hrest.trans
      simp [ofJoints, Function.comp_def]

theorem mapIdx_const (f : α -> β) (as : List α) :
    as.mapIdx (fun _ => f) = as.map f := by
  apply List.ext_getElem <;> simp

theorem links_foldl_add (c : Chain α) (ls : List (Option Relation × α)) :
    (ls.foldl (fun c l => c.add l.1 l.2) c).links =
      c.links ++ ls.mapIdx (fun i l =>
        (if c.isEmpty ∧ i = 0 then none else some (l.1.getD .and), l.2)) := by
  cases c with
  | nil =>
      cases ls with
      | nil => rfl
      | cons l ls =>
          have hrest := foldl_add_cons l.2 [] ls
          rw [List.foldl_cons, List.mapIdx_cons]
          apply (congrArg links hrest).trans
          simp [links, isEmpty, mapIdx_const]
  | cons a rest =>
      rw [foldl_add_cons]
      simp [links, isEmpty, mapIdx_const]

theorem alternates_entries (c : Chain α) : Entry.Alternates c.entries := by
  cases c with
  | nil => exact ⟨by simp [entries], by simp [entries], List.isChain_nil⟩
  | cons a rest =>
      rw [entries_cons]
      induction rest generalizing a with
      | nil =>
          refine ⟨?_, ?_, List.isChain_singleton _⟩
          · intro e he
            cases he
            rfl
          · intro e he
            cases he
            rfl
      | cons l rest ih =>
          rcases l with ⟨r, b⟩
          have hrest := ih b
          rw [jointEntries_cons]
          refine ⟨?_, ?_, ?_⟩
          · intro e he
            cases he
            rfl
          · intro e he
            apply hrest.last
            rw [← he, List.getLast?_cons_cons, List.getLast?_cons_cons]
          · rw [List.isChain_cons_cons, List.isChain_cons_cons]
            exact ⟨by simp [Entry.isElement], by simp [Entry.isElement],
              hrest.adjacent⟩

theorem exists_jointEntries :
    forall (a : α) (es : List (Entry α)),
      (Entry.element a :: es).IsChain (fun a b => a.isElement ≠ b.isElement) ->
      (forall e, (Entry.element a :: es).getLast? = some e ->
        e.isElement = true) ->
      exists js, es = jointEntries js
  | _, [], _, _ => ⟨[], rfl⟩
  | _, .element b :: es, hadjacent, _ =>
      absurd rfl (List.isChain_cons_cons.mp hadjacent).1
  | _, [.relation r], _, hlast => nomatch hlast (.relation r) rfl
  | _, .relation r :: .relation s :: es, hadjacent, _ =>
      absurd rfl (List.isChain_cons_cons.mp
        (List.isChain_cons_cons.mp hadjacent).2).1
  | _, .relation r :: .element b :: es, hadjacent, hlast => by
      have hrest := (List.isChain_cons_cons.mp
        (List.isChain_cons_cons.mp hadjacent).2).2
      rcases exists_jointEntries b es hrest hlast with ⟨js, rfl⟩
      exact ⟨(r, b) :: js, rfl⟩

/-- What alternates is a chain that is written out. -/
theorem exists_of_alternates {es : List (Entry α)} (h : Entry.Alternates es) :
    exists c : Chain α, es = c.entries := by
  cases es with
  | nil => exact ⟨.nil, rfl⟩
  | cons e es =>
      cases e with
      | element a =>
          rcases exists_jointEntries a es h.adjacent h.last with ⟨js, rfl⟩
          exact ⟨.cons a js, rfl⟩
      | relation r => cases h.head (.relation r) rfl

end Entries

theorem Entry.Alternates.orderly {α : Type u} {es : List (Entry α)}
    (h : Alternates es) : Orderly es := by
  rcases exists_of_alternates h with ⟨c, rfl⟩
  refine ⟨h, ?_, ?_, ?_⟩
  · rw [length_entries, links_entries, ← size_eq_length_elements,
      ← map_snd_links, List.length_map]
  · intro i l hl
    rw [links_entries] at hl
    exact links_none_iff hl
  · rw [links_entries, interleave_links]

end Chain

end SearchQuery
