import SearchQuery.Proofs.Classification
import SearchQuery.Proofs.Level
import SearchQuery.Proofs.Outline.Place
import SearchQuery.Proofs.Text.Form

/-!
# Where an error lies

An error of a parse points into the text that was parsed: what it names is some of
that text and stands there in one part, however deep the group is in which it was
found.  In a URL the text is the one that the percent escapes stand for.
-/

namespace SearchQuery

/-!
# Faults
-/

theorem Fragment.pointsInto_of_read {settings : Settings} {text : List Char}
    {negated : Bool} {fault : Fault} (hne : text ≠ [])
    (h : read settings text negated = .error fault) : fault.PointsInto text := by
  have hpoints : forall cause, cause ≠ .emptyTerm ->
      Fault.PointsInto ⟨cause, text⟩ text := by
    intro cause hcause
    exact ⟨hne, List.infix_rfl, hcause⟩
  have hmeans := means_read settings text negated
  rw [h] at hmeans
  cases hmeans with
  | empty hnil => exact absurd hnil hne
  | misnamed _ hnames =>
      apply hpoints
      intro hcause
      rw [hcause] at hnames
      cases hnames
  | lacking _ _ hlacks =>
      apply hpoints
      intro hcause
      rw [hcause] at hlacks
      cases hlacks

theorem Fault.PointsInto.of_isInfix {f : Fault} {inner text : List Char}
    (h : f.PointsInto inner) (hinner : inner <:+: text) : f.PointsInto text where
  ne_nil := h.ne_nil
  isInfix := h.isInfix.trans hinner
  cause_ne := h.cause_ne

theorem Level.pointsInto_of_read {settings : Settings} {l : Level} {fault : Fault}
    (h : l.read settings = .error fault) : fault.PointsInto l.text := by
  induction l using Level.induction with
  | step l ih =>
      rcases cases_of_read_eq_error h with
        ⟨p, text, hp, hbody, hfragment⟩ | ⟨p, inner, hp, hbody, hinner⟩ | houtline
      · have hinfix := Outline.isInfix_of_mem_ofLevel hp
        have hne := Outline.ne_nil_of_mem_ofLevel hp hbody
        rw [hbody] at hinfix
        exact (Fragment.pointsInto_of_read hne hfragment).of_isInfix hinfix
      · have hinfix := Outline.isInfix_of_mem_ofLevel hp
        rw [hbody] at hinfix
        exact (ih p hp inner hbody hinner).of_isInfix hinfix
      · exact Outline.pointsInto_of_ofLevel houtline

/-!
# Errors
-/

/-- An error points into a text: the text is its query, and of that it names some
that is there. -/
structure ParseError.PointsInto (e : ParseError) (text : String) : Prop where
  query : e.query = text
  fragment_ne : e.fragment ≠ ""
  isInfix : e.fragment.toList <:+: text.toList
  cause_ne : e.cause ≠ .emptyTerm

namespace Query

variable {settings : Settings}

theorem pointsInto_of_parse {text : String} {error : ParseError}
    (h : parse settings text = .error error) : error.PointsInto text := by
  rcases exists_of_parse_eq_error h with ⟨fault, hread, rfl⟩
  rcases Level.pointsInto_of_read hread with ⟨hne, hinfix, hcause⟩
  have hfragment : (String.ofList fault.fragment).toList = fault.fragment :=
    String.toList_ofList
  constructor
  · rfl
  · intro hempty
    have hnil := congrArg String.toList hempty
    exact hne (hfragment.symm.trans hnil)
  · show (String.ofList fault.fragment).toList <:+: text.toList
    rw [hfragment]
    exact hinfix
  · exact hcause

theorem parseFormWith_cases {decode? : List Char -> Option (List Char)}
    (hdecode : Text.IsPercentDecoder decode?) {encoded : String}
    {bytes : List UInt8}
    (h : Text.PercentCodes (encoded.toList.map Text.plusToSpace) bytes) :
    (exists text : String, bytes = Text.utf8 text.toList ∧
        parseFormWith decode? settings encoded = parse settings text) ∨
      (forall text, bytes ≠ Text.utf8 text) ∧
        parseFormWith decode? settings encoded =
          .error { cause := .notUtf8, fragment := encoded, query := encoded } := by
  rw [parseFormWith, hdecode _ _ h]
  cases hbytes : Text.ofUtf8? bytes with
  | some text =>
      refine Or.inl ⟨String.ofList text, ?_, rfl⟩
      rw [String.toList_ofList]
      exact Text.ofUtf8?_eq_some_iff.mp hbytes
  | none =>
      refine Or.inr ⟨?_, rfl⟩
      intro text htext
      rw [Text.ofUtf8?_eq_some_iff.mpr htext] at hbytes
      cases hbytes

/-- Every error points into the text that was parsed.  For a query in a URL that is
the text of its bytes; where they are those of no text, the error shows the query
as it was written there. -/
theorem pointsInto_of_eq_error (settings : Settings) :
    (forall text error, parse settings text = .error error ->
      error.PointsInto text) ∧
      forall decode?, Text.IsPercentDecoder decode? ->
        forall (encoded : String) bytes,
          Text.PercentCodes (encoded.toList.map Text.plusToSpace) bytes ->
            forall error,
              parseFormWith decode? settings encoded = .error error ->
                (exists text : String, bytes = Text.utf8 text.toList ∧
                  error.PointsInto text) ∨
                  (forall text, bytes ≠ Text.utf8 text) ∧
                    error.query = encoded ∧ error.fragment = encoded := by
  constructor
  · intro text error h
    exact pointsInto_of_parse h
  · intro decode? hdecode encoded bytes hbytes error h
    rcases parseFormWith_cases hdecode hbytes with
      ⟨text, htext, hparse⟩ | ⟨hnone, hparse⟩
    · rw [hparse] at h
      exact Or.inl ⟨text, htext, pointsInto_of_parse h⟩
    · rw [hparse] at h
      cases h
      exact Or.inr ⟨hnone, rfl, rfl⟩

theorem pointsInto_of_eq_error_inner :
    parse {} "title=a AND NOT( (shade=b OR x))" = .error
        { cause := .unknownField "shade", fragment := "shade=b",
          query := "title=a AND NOT( (shade=b OR x))" } ∧
      "shade=b".toList <:+: "title=a AND NOT( (shade=b OR x))".toList ∧
      Text.PercentCodes ("a%C3+%3d".toList.map Text.plusToSpace)
        [0x61, 0xC3, 0x20, 0x3D] ∧
      (forall text, [0x61, 0xC3, 0x20, 0x3D] ≠ Text.utf8 text) ∧
      parseForm {} "a%C3+%3d" = .error
        { cause := .notUtf8, fragment := "a%C3+%3d", query := "a%C3+%3d" } := by
  have herror : parse {} "title=a AND NOT( (shade=b OR x))" = .error
      { cause := .unknownField "shade", fragment := "shade=b",
        query := "title=a AND NOT( (shade=b OR x))" } := rfl
  have hform : parseForm {} "a%C3+%3d" = .error
      { cause := .notUtf8, fragment := "a%C3+%3d", query := "a%C3+%3d" } := rfl
  have hbytes : Text.PercentCodes ("a%C3+%3d".toList.map Text.plusToSpace)
      [0x61, 0xC3, 0x20, 0x3D] := Text.percentCodes_iff.mpr rfl
  rcases pointsInto_of_eq_error {} with ⟨hparse, hencoded⟩
  refine ⟨herror, (hparse _ _ herror).isInfix, hbytes, ?_, hform⟩
  rcases hencoded _ Text.isPercentDecoder_percentDecode? _ _ hbytes _ hform with
    ⟨text, htext, _⟩ | ⟨hnone, _⟩
  · have hnone : Text.ofUtf8? [0x61, 0xC3, 0x20, 0x3D] = none := rfl
    rw [Text.ofUtf8?_eq_some_iff.mpr htext] at hnone
    cases hnone
  · exact hnone

end Query

end SearchQuery
