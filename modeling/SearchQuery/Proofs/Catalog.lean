import SearchQuery.Proofs.Lockstep
import SearchQuery.Proofs.Term.Reading

/-!
# Narrower catalogs

A catalog decides which names are known and nothing else.  What a text is divided
into, and which shape a fragment has, is settled before a name is looked up, and a
name that is not known ends the reading.  So a catalog that knows less reads a text
in the same way or refuses it for an unknown name.
-/

namespace SearchQuery

/-- A catalog that knows every name that another one knows, and by it the same
field or sub-field. -/
structure Catalog.Extends (large small : Catalog) : Prop where
  field? : forall name f, small.field? name = some f -> large.field? name = some f
  subfield? : forall name f,
    small.subfield? name = some f -> large.subfield? name = some f

namespace Address

variable {large small : Catalog}

theorem ofPath_eq_or_unknown (h : large.Extends small) (path : List Char) :
    ofPath small path = ofPath large path ∨
      exists cause, ofPath small path = .error cause ∧
        cause.kind = .unknownField := by
  unfold ofPath
  generalize path.takeWhile (· ≠ '.') = index
  generalize ((path.dropWhile (· ≠ '.')).drop 1).takeWhile (· ≠ '.') = name
  cases index with
  | nil => exact Or.inl rfl
  | cons c index =>
      cases name with
      | nil => exact Or.inl rfl
      | cons d name =>
          cases hname : small.subfield? (String.ofList (d :: name)) with
          | some f =>
              simp only [hname, h.subfield? _ f hname, true_or]
          | none =>
              simp only [hname]
              exact Or.inr ⟨_, rfl, rfl⟩

theorem ofName_eq_or_unknown (h : large.Extends small) (name : List Char)
    (shape : Shape) :
    ofName small name shape = ofName large name shape ∨
      exists cause, ofName small name shape = .error cause ∧
        cause.kind = .unknownField := by
  cases shape with
  | statement => exact ofPath_eq_or_unknown h name
  | collection => exact Or.inl rfl
  | technical => exact Or.inl rfl
  | field =>
      simp only [ofName]
      cases hname : small.field? (String.ofList name) with
      | some f =>
          rw [h.field? _ f hname]
          exact Or.inl rfl
      | none => exact Or.inr ⟨_, rfl, rfl⟩

end Address

namespace Fragment

variable {large small : Catalog}

theorem element_eq_or_unknown (h : large.Extends small) (options : Options)
    (text : List Char) (negated : Bool) :
    element { options with catalog := small } text negated =
        element { options with catalog := large } text negated ∨
      exists cause,
        element { options with catalog := small } text negated = .error cause ∧
          cause.kind = .unknownField := by
  unfold element
  split
  · exact Or.inl rfl
  split
  next shape s _ =>
    rcases Address.ofName_eq_or_unknown h s.name shape with
      heq | ⟨cause, hcause, hkind⟩
    · rw [heq]
      exact Or.inl rfl
    · rw [hcause]
      exact Or.inr ⟨cause, rfl, hkind⟩
  · exact Or.inl rfl

theorem read_eq_or_unknown (h : large.Extends small) (options : Options)
    (text : List Char) (negated : Bool) :
    read { options with catalog := small } text negated =
        read { options with catalog := large } text negated ∨
      exists fault,
        read { options with catalog := small } text negated = .error fault ∧
          fault.IsOf .unknownField := by
  unfold read
  rcases element_eq_or_unknown h options text negated with
    heq | ⟨cause, hcause, hkind⟩
  · rw [heq]
    exact Or.inl rfl
  · rw [hcause]
    exact Or.inr ⟨_, rfl, hkind⟩

end Fragment

namespace Query

/-- With a smaller catalog a text is parsed with the same result, or it has a name
that is not known; and a fragment in the shape of a term stays a term of that
shape. -/
theorem parse_eq_or_unknown {large small : Catalog} (h : large.Extends small)
    (options : Options) (text : String) :
    (parse { options with catalog := small } text =
        parse { options with catalog := large } text ∨
      exists error, parse { options with catalog := small } text = .error error ∧
        error.kind = .unknownField) ∧
      forall fragment negated shape s e,
        Shape.ofText? fragment = some (shape, s) ->
          Fragment.read { options with catalog := small } fragment negated =
              .ok e ->
            exists t : Term, e = .term t ∧ t.address.shape = shape := by
  constructor
  · apply parse_eq_or_kind
    have hterm := Fragment.inStep_of_eq_or
      (Fragment.read_eq_or_unknown h options)
    apply Level.read_eq_or_stopped
    exact Level.inStep_trace_self hterm (fun _ _ _ => Element.group_eq_of_alike) _
  · intro fragment negated shape s e htext hread
    exact Fragment.shape_of_read htext hread

theorem parse_eq_or_unknown_title :
    Catalog.Extends .standard (.ofTables [("title", .title)] []) ∧
      parse { catalog := .ofTables [("title", .title)] [] } "title=a AND b" =
        parse {} "title=a AND b" ∧
      exists error, parse { catalog := .ofTables [("title", .title)] [] }
          "title=a OR date=b AND (" = .error error ∧
        error.kind = .unknownField := by
  have hextends : Catalog.Extends .standard
      (.ofTables [("title", .title)] []) := by
    constructor
    · intro name f hf
      by_cases hname : name = "title"
      · rw [hname] at hf ⊢
        cases hf
        rfl
      · have hnone : [("title", Field.title)].lookup name = none := by
          rw [List.lookup_cons, beq_false_of_ne hname]
          rfl
        cases hnone.symm.trans hf
    · intro name f hf
      cases hf
  have hok : parse { catalog := .ofTables [("title", .title)] [] }
      "title=a AND b" = .ok (.cons
        (.term { address := .field .title, value := "a" })
        [(.and, .freeText true "b" false)]) := rfl
  refine ⟨hextends, ?_, _, rfl, rfl⟩
  rcases (parse_eq_or_unknown hextends {} "title=a AND b").1 with
    heq | ⟨error, herror, _⟩
  · exact heq
  · have hcontra := hok.symm.trans herror
    cases hcontra

end Query

end SearchQuery
