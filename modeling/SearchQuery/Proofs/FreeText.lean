import SearchQuery.Proofs.Coverage
import SearchQuery.Proofs.Lockstep

/-!
# The fallback for free text

Without the fallback free text is one term, and with it a group of two.  Nothing
else depends on it: a text is divided into the same fragments, at the same levels
and with the same words in front of them, and its faults are the same.
-/

namespace SearchQuery

/-- Two elements that were made of the same fragments, without the fallback and
with it.  Fragments in the shape of a term are the same term.  A fragment that is
free text is a term for all indexed text in one and in the other a group that
searches the extracted full text too; the negation is that of the term or that of
the group. -/
inductive Element.Expands : List Handed -> Element -> Element -> Prop where
  | term {x : Handed} {t : Term} : Shape.ofText? x.text ≠ none ->
      Element.Expands [x] (.term t) (.term t)
  | freeText {x : Handed} {value : String} : Shape.ofText? x.text = none ->
      value = String.ofList (Text.unescape x.text) ->
      Element.Expands [x]
        (.term
          { address := .field .all, value := value, negated := x.negated })
        (.group
          (.cons (.term { address := .field .all, value := value })
            [(.or, .term { address := .field .fulltext, value := value })])
          x.negated)
  | group {handed : List Handed} {items items' : Chain Element}
      {negated : Bool} : Chain.Alike Element.Expands handed items items' ->
      Element.Expands handed (.group items negated) (.group items' negated)

namespace Fragment

theorem read_fallback {text : List Char} {shape : Shape} {s : Split}
    (h : Shape.ofText? text = some (shape, s)) (settings : Settings)
    (negated : Bool) :
    read { settings with fulltextFallback := false } text negated =
      read { settings with fulltextFallback := true } text negated := by
  unfold read element
  cases text with
  | nil => rfl
  | cons c text => simp only [h]

theorem inStep_fallback (settings : Settings) :
    Fragment.InStep (fun _ => False) Element.Expands
      { settings with fulltextFallback := false }
      { settings with fulltextFallback := true } := by
  intro text negated
  cases htext : Shape.ofText? text with
  | some shaped =>
      rcases shaped with ⟨shape, s⟩
      rw [← read_fallback htext settings negated]
      cases hread :
          read { settings with fulltextFallback := false } text negated with
      | error fault => exact Traced.InStep.error
      | ok e =>
          rcases shape_of_read htext hread with ⟨t, rfl, _⟩
          apply Traced.InStep.ok
          apply Element.Expands.term
          rw [htext]
          simp
  | none =>
      cases text with
      | nil => exact Traced.InStep.error
      | cons c text =>
          unfold read element
          simp only [htext]
          cases dangling? (c :: text) with
          | some cause => exact Traced.InStep.error
          | none =>
              exact Traced.InStep.ok (Element.Expands.freeText htext rfl)

end Fragment

namespace Query

/-- Without the fallback for free text and with it, a text has the same fault, or it
is made of the same fragments and the two queries differ only in what free text
stands for. -/
theorem parse_fallback (settings : Settings) (text : String) :
    (exists error,
      parse { settings with fulltextFallback := false } text = .error error ∧
      parse { settings with fulltextFallback := true } text = .error error) ∨
    exists handed plain full,
      parse { settings with fulltextFallback := false } text = .ok plain ∧
      parse { settings with fulltextFallback := true } text = .ok full ∧
      (trace { settings with fulltextFallback := false } text.toList).handed =
        handed ∧
      (trace { settings with fulltextFallback := true } text.toList).handed =
        handed ∧
      Chain.Alike Element.Expands handed plain full := by
  have htrace : Traced.InStep (fun _ => False) (Chain.Alike Element.Expands)
      (trace { settings with fulltextFallback := false } text.toList)
      (trace { settings with fulltextFallback := true } text.toList) :=
    Level.inStep_trace_self (Fragment.inStep_fallback settings)
      (fun _ _ _ _ => Element.Expands.group) _
  have hresult : forall settings : Settings,
      parse settings text =
        (trace settings text.toList).result.mapError
          (ParseError.ofFault text) := by
    intro settings
    exact congrArg _ (Level.result_trace settings _).symm
  rw [hresult, hresult]
  generalize trace { settings with fulltextFallback := false } text.toList = x
    at htrace ⊢
  generalize trace { settings with fulltextFallback := true } text.toList = y
    at htrace ⊢
  cases htrace with
  | @ok handed plain full halike =>
      exact Or.inr ⟨handed, plain, full, rfl, rfl, rfl, rfl, halike⟩
  | error => exact Or.inl ⟨_, rfl, rfl⟩
  | stopped hstop => exact hstop.elim

example :
    parse { fulltextFallback := false } "all=x OR (NOT sunset)" = .ok (.cons
        (.term { address := .field .all, value := "x" })
        [(.or, .group (.single (.term
          { address := .field .all, value := "sunset", negated := true }))
            false)]) ∧
      parse { fulltextFallback := true } "all=x OR (NOT sunset)" = .ok (.cons
        (.term { address := .field .all, value := "x" })
        [(.or, .group (.single (.group
          (.cons (.term { address := .field .all, value := "sunset" })
            [(.or, .term { address := .field .fulltext, value := "sunset" })])
          true)) false)]) :=
  ⟨rfl, rfl⟩

end Query

end SearchQuery
