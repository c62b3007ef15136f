import Mathlib.Data.List.Forall2
import SearchQuery.Proofs.Canonical
import SearchQuery.Proofs.Coverage

/-!
# Names in a query

The names in a query that was parsed are made of the characters that they may
have.  A field or a sub-field that its text names is what the catalog knows a name
in the text by; only free text has its fields without being asked.
-/

namespace SearchQuery

theorem Woven.isInfix_of_mem {escaped : Bool} {fs : List (List Char)}
    {text : List Char} (h : Woven escaped fs text) {f : List Char}
    (hf : f ∈ fs) : f <:+: text := by
  induction h with
  | gap => cases hf
  | @fragment _ g f' rest fs _ _ ih =>
      rcases List.mem_cons.mp hf with rfl | hf
      · exact ⟨g, rest, List.append_assoc _ _ _⟩
      · have hrest : rest <:+: g ++ (f' ++ rest) :=
          ((List.suffix_append _ _).trans (List.suffix_append _ _)).isInfix
        exact (ih hf).trans hrest

/-!
# Names of an address
-/

namespace Address

def NamedIn (catalog : Catalog) (text : List Char) : Address -> Prop
  | field f =>
      exists name, name ≠ [] ∧ name <:+: text ∧
        catalog.field? (String.ofList name) = some f
  | statement _ (some f) =>
      exists name, name ≠ [] ∧ name <:+: text ∧
        catalog.subfield? (String.ofList name) = some f
  | statement _ none => True
  | collection _ => True
  | technical _ => True

variable {catalog : Catalog} {text : List Char}

theorem NamedIn.mono {text' : List Char} {a : Address}
    (h : a.NamedIn catalog text) (htext : text <:+: text') :
    a.NamedIn catalog text' := by
  cases a with
  | field f =>
      rcases h with ⟨name, hne, hname, hf⟩
      exact ⟨name, hne, hname.trans htext, hf⟩
  | statement index subfield =>
      cases subfield with
      | none => exact trivial
      | some f =>
          rcases h with ⟨name, hne, hname, hf⟩
          exact ⟨name, hne, hname.trans htext, hf⟩
  | collection label => exact trivial
  | technical label => exact trivial

theorem namedIn_of_ofPath {path : List Char} {a : Address}
    (h : ofPath catalog path = .ok a) : a.NamedIn catalog path := by
  have hsegment : ((path.dropWhile (· ≠ '.')).drop 1).takeWhile (· ≠ '.') <:+:
      path :=
    (List.takeWhile_prefix _).isInfix.trans
      ((List.drop_suffix _ _).trans (List.dropWhile_suffix _)).isInfix
  unfold ofPath at h
  split at h
  · cases h
  · split at h
    · cases h
      exact trivial
    next hne =>
      split at h
      next f hf =>
        cases h
        exact ⟨_, hne, hsegment, hf⟩
      next => cases h

theorem namedIn_of_ofText? {shape : Shape} {s : Split} {a : Address}
    (htext : Shape.ofText? text = some (shape, s))
    (h : ofName catalog s.name shape = .ok a) : a.NamedIn catalog text := by
  rcases Shape.split?_eq_some_iff.mp (Shape.split?_of_ofText? htext) with
    ⟨rest, rfl, hsplit⟩
  have hrest : rest <:+: shape.lead ++ rest :=
    (List.suffix_append _ _).isInfix
  cases shape with
  | statement =>
      have hname := Split.name_prefix_of_named? hsplit
      exact (namedIn_of_ofPath h).mono (hname.isInfix.trans hrest)
  | collection =>
      cases h
      exact trivial
  | technical =>
      cases h
      exact trivial
  | field =>
      have hname := Split.name_prefix_of_named? hsplit
      have hne := (Split.name_of_named? hsplit).1
      simp only [ofName] at h
      split at h
      next f hf =>
        cases h
        exact ⟨s.name, hne, hname.isInfix.trans hrest, hf⟩
      next => cases h

end Address

/-!
# Names of the fragments of a text
-/

/-- What a fragment of a text is read as: free text if it has no shape, and
otherwise a term that is named in the text. -/
inductive Handed.NamedAs (settings : Settings) (text : List Char)
    (x : Handed) : Element -> Prop where
  | freeText : Shape.ofText? x.text = none ->
      NamedAs settings text x (.freeText settings.fulltextFallback
        (String.ofList (Text.unescape x.text)) x.negated)
  | term {t : Term} : t.address.NamedIn settings.catalog text ->
      NamedAs settings text x (.term t)

theorem Handed.namedAs_of_read {settings : Settings} {text : List Char}
    {x : Handed} (hx : x.text <:+: text) {e : Element}
    (h : Fragment.read settings x.text x.negated = .ok e) :
    x.NamedAs settings text e := by
  rcases Fragment.element_cases (Fragment.read_eq_ok_iff.mp h) with
    ⟨shape, s, address, htext, haddress, rfl⟩ | ⟨htext, rfl⟩
  · exact NamedAs.term ((Address.namedIn_of_ofText? htext haddress).mono hx)
  · exact NamedAs.freeText htext

namespace Query

/-- A query that was parsed has no empty groups and its names are well formed.
Its terms are those of the fragments of its text, and apart from free text the
catalog knows their fields and sub-fields by names in the text. -/
theorem wellNamed_of_parse {settings : Settings} {text : String} {q : Query}
    (h : parse settings text = .ok q) :
    q.Full (fun t => t.address.WellNamed) ∧
      (trace settings text.toList).result = .ok q ∧
      exists es : List Element, q.leaves = es.flatMap Element.leaves ∧
        List.Forall₂ (fun (x : Handed) e =>
            Fragment.read settings x.text x.negated = .ok e ∧
              x.text <:+: text.toList ∧
              x.NamedAs settings text.toList e)
          (trace settings text.toList).handed es := by
  have hread := parse_eq_ok_iff.mp h
  have hfull : q.Full (fun t => t.address.WellNamed) := by
    simpa only [Address.legible_iff_wellNamed] using full_of_level hread
  rcases Level.readAs_trace hread with ⟨es, hes, hleaves⟩
  have hinside : forall x, x ∈ (trace settings text.toList).handed ->
      x.text <:+: text.toList := by
    intro x hx
    exact (Level.woven_trace hread).isInfix_of_mem (List.mem_map_of_mem hx)
  rw [← List.forall₂_eq_eq_eq, List.forall₂_map_left_iff,
    List.forall₂_map_right_iff] at hes
  refine ⟨hfull, (Level.result_trace settings _).trans hread, es, hleaves, ?_⟩
  have hboth := (List.forall₂_and_left _ _).mpr ⟨hinside, hes⟩
  apply List.Forall₂.imp _ hboth
  intro x e hparts
  exact ⟨hparts.2, hparts.1, Handed.namedAs_of_read hparts.1 hparts.2⟩

theorem wellNamed_of_parse_subfield :
    parse {} "md.a:b.text=x AND (date )" = .ok (.cons
        (.term { address := .statement "a:b" (some .text), value := "x" })
        [(.and, .group (.single (.freeText true "date" false)) false)]) ∧
      (forall t, t ∈ leaves (.cons
          (.term { address := .statement "a:b" (some .text), value := "x" })
          [(.and, .group (.single (.freeText true "date" false)) false)]) ->
        t.address.WellNamed) ∧
      exists es, List.Forall₂ (fun (x : Handed) e =>
          Fragment.read {} x.text x.negated = .ok e ∧
            x.text <:+: "md.a:b.text=x AND (date )".toList ∧
            x.NamedAs {} "md.a:b.text=x AND (date )".toList e)
        [⟨"md.a:b.text=x".toList, false⟩, ⟨"date".toList, false⟩] es := by
  have h : parse {} "md.a:b.text=x AND (date )" = .ok (.cons
      (.term { address := .statement "a:b" (some .text), value := "x" })
      [(.and, .group (.single (.freeText true "date" false)) false)]) := rfl
  rcases wellNamed_of_parse h with ⟨hfull, _, es, _, hes⟩
  refine ⟨h, ?_, es, hes⟩
  intro t ht
  rcases List.mem_flatMap.mp ht with ⟨e, he, ht⟩
  exact (hfull e he).of_mem_leaves ht

end Query

end SearchQuery
