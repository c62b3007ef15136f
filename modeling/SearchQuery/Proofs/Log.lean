import SearchQuery.Log
import SearchQuery.Proofs.Trace

/-!
# What the log tells

The records of terms are those of the fragments that are handed on, one for each
and in the order of the text.  A warning is logged for a query that is refused, and
for no other.
-/

namespace SearchQuery

def Record.handed? : Record -> Option Handed
  | ⟨.trace, _, [(_, .text term), _, (_, .flag negated)]⟩ =>
      some ⟨term.toList, negated⟩
  | _ => none

variable (settings : Settings)

theorem Fragment.exists_of_mem_records {text : List Char} {r : Record}
    (h : r ∈ records settings text) :
    exists what details, r = .classified what text details := by
  unfold records at h
  split at h
  · cases h
  next =>
    split at h
    · exact ⟨_, _, List.mem_singleton.mp h⟩
    · exact ⟨_, _, List.mem_singleton.mp h⟩
    · exact ⟨_, _, List.mem_singleton.mp h⟩
    · split at h
      · exact ⟨_, _, List.mem_singleton.mp h⟩
      · cases h
    · split at h
      · cases h
      · exact ⟨_, _, List.mem_singleton.mp h⟩

theorem Fragment.handed_records (text : List Char) :
    (records settings text).filterMap Record.handed? = [] := by
  rw [List.filterMap_eq_nil_iff]
  intro r hr
  rcases exists_of_mem_records settings hr with ⟨what, details, rfl⟩
  rfl

namespace Piece

variable {read : List Char -> Except Fault Query}
  {nested : List Char -> List Record}

theorem severity_of_mem_records {p : Piece} {r : Record}
    (hnested : forall inner, p.body = .bracketed inner ->
      forall r, r ∈ nested inner -> r.severity ≠ .warn)
    (h : r ∈ p.records settings read nested) : r.severity ≠ .warn := by
  rcases p with ⟨relation, negated, text | inner⟩
  · rcases List.mem_cons.mp h with rfl | h
    · simp [Record.flushing]
    · rcases Fragment.exists_of_mem_records settings h with ⟨what, details, rfl⟩
      simp [Record.classified]
  · rcases List.mem_append.mp h with h | h
    · exact hnested inner rfl r h
    · split at h
      · rw [List.mem_singleton.mp h]
        simp [Record.dropping]
      · cases h

theorem severity_of_mem_listRecords {pieces : List Piece} {r : Record}
    (hnested : forall p, p ∈ pieces -> forall inner, p.body = .bracketed inner ->
      forall r, r ∈ nested inner -> r.severity ≠ .warn)
    (h : r ∈ listRecords settings read nested pieces) : r.severity ≠ .warn := by
  induction pieces with
  | nil => cases h
  | cons p rest ih =>
      rcases List.mem_append.mp h with h | h
      · exact severity_of_mem_records settings (hnested p List.mem_cons_self) h
      · split at h
        · cases h
        · exact ih (fun q hq => hnested q (List.mem_cons_of_mem p hq)) h

section Trace

variable {trace : List Char -> Traced Query}

theorem handed_records {p : Piece}
    (hnested : forall inner, p.body = .bracketed inner ->
      (nested inner).filterMap Record.handed? = (trace inner).handed) :
    (p.records settings read nested).filterMap Record.handed? =
      (p.traceElement (Fragment.read settings) trace).handed := by
  rcases p with ⟨relation, negated, text | inner⟩
  · show Handed.mk (String.ofList text).toList negated ::
      (Fragment.records settings text).filterMap Record.handed? = _
    rw [Fragment.handed_records, String.toList_ofList]
    rfl
  · show List.filterMap _ (nested inner ++ _) = (trace inner).handed
    rw [List.filterMap_append, hnested inner rfl, List.append_right_eq_self]
    split
    · rfl
    · rfl

theorem handed_listRecords {pieces : List Piece}
    (hread : forall inner, read inner = (trace inner).result)
    (hnested : forall p, p ∈ pieces -> forall inner, p.body = .bracketed inner ->
      (nested inner).filterMap Record.handed? = (trace inner).handed) :
    (listRecords settings read nested pieces).filterMap Record.handed? =
      (traceJoints (Fragment.read settings) trace pieces).handed := by
  induction pieces with
  | nil => rfl
  | cons p rest ih =>
      have hp : (p.records settings read nested).filterMap Record.handed? =
          (p.traceElement (Fragment.read settings) trace).handed :=
        handed_records settings (hnested p List.mem_cons_self)
      have hrest := ih (fun q hq => hnested q (List.mem_cons_of_mem p hq))
      have hresult : p.element? (Fragment.read settings) read =
          (p.traceElement (Fragment.read settings) trace).result := by
        rw [result_traceElement]
        exact element?_congr (fun inner _ => hread inner)
      rw [listRecords, List.filterMap_append, hp, hresult]
      cases h : (p.traceElement (Fragment.read settings) trace).result with
      | error fault =>
          rw [traceJoints, Traced.bind_of_error h]
          exact List.append_nil _
      | ok e? => rw [handed_traceJoints_cons h, ← hrest]

end Trace

end Piece

namespace Level

theorem severity_of_mem_records {l : Level} {r : Record}
    (h : r ∈ l.records settings) : r.severity ≠ .warn := by
  induction l using Level.induction generalizing r with
  | step l ih =>
      rw [records_eq] at h
      exact Piece.severity_of_mem_listRecords settings
        (fun p hp inner hbody r hr => ih p hp inner hbody hr) h

/-- The records of terms are the trace of the fragments that are handed on. -/
theorem handed_records (l : Level) :
    (l.records settings).filterMap Record.handed? = (l.trace settings).handed := by
  induction l using Level.induction with
  | step l ih =>
      rw [records_eq, handed_trace]
      exact Piece.handed_listRecords settings
        (fun inner => (result_trace settings (l.inner inner)).symm) ih

end Level

/-- A query that is refused leaves one warning, and no other query leaves any. -/
theorem Query.warnings_eq (text : List Char) :
    (Query.records settings text).filter (fun r => r.severity == .warn) =
      match Query.read settings text with
      | .ok _ => []
      | .error fault =>
          [⟨.warn, "query could not be parsed",
            [("kind", .shown fault.cause.kind.label),
              ("fragment", .shown (String.ofList fault.fragment))]⟩] := by
  have hlevel : (Level.records settings
      { text := text, limit := settings.maxDepth }).filter
        (fun r => r.severity == .warn) = [] := by
    rw [List.filter_eq_nil_iff]
    intro r hr
    simpa using Level.severity_of_mem_records settings hr
  rw [records, List.filter_append, hlevel, List.nil_append]
  cases Query.read settings text with
  | ok q => rfl
  | error fault => rfl

example : Query.records {} "() OR NOT title=a AND colour=b".toList =
    [⟨.debug, "dropping empty group", [("fragment", .text "()")]⟩,
      ⟨.trace, "flushing term", [("term", .text "title=a"),
        ("relation", .shown "Or"), ("negated", .flag true)]⟩,
      ⟨.debug, "classified as field pair", [("fragment", .text "title=a"),
        ("field", .text "title")]⟩,
      ⟨.trace, "flushing term", [("term", .text "colour=b"),
        ("relation", .shown "And"), ("negated", .flag false)]⟩,
      ⟨.warn, "query could not be parsed", [("kind", .shown "UnknownField"),
        ("fragment", .shown "colour=b")]⟩] := rfl

end SearchQuery
