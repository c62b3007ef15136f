import SearchQuery.Proofs.Level
import SearchQuery.Proofs.Outline.Inside

/-!
# Brackets of a query's text

The brackets of a text that is parsed nest within the limit.  A text is refused as
too deep only if more brackets are open somewhere in it than the limit allows,
whatever else is wrong with it.
-/

namespace SearchQuery

/-!
# Faults of fragments
-/

def Cause.isUnnested : Cause -> Bool
  | tooDeep _ => true
  | unmatchedOpen => true
  | unmatchedClose => true
  | _ => false

theorem Cause.isUnnested_of_tooDeep {cause : Cause}
    (h : cause.kind = .tooDeeplyNested) : cause.isUnnested = true := by
  cases cause <;> first | rfl | cases h

theorem Address.isUnnested_of_ofName {catalog : Catalog} {name : List Char}
    {shape : Shape} {cause : Cause}
    (h : ofName catalog name shape = .error cause) :
    cause.isUnnested = false := by
  cases shape with
  | statement =>
      simp only [ofName, ofPath] at h
      split at h
      · cases h
        rfl
      split at h
      · cases h
      split at h
      · cases h
      · cases h
        rfl
  | collection => cases h
  | technical => cases h
  | field =>
      simp only [ofName] at h
      split at h
      · cases h
      · cases h
        rfl

namespace Fragment

theorem isUnnested_of_dangling? {text : List Char} {cause : Cause}
    (h : dangling? text = some cause) : cause.isUnnested = false := by
  unfold dangling? at h
  split at h
  · cases h
    rfl
  split at h
  · cases h
    rfl
  split at h
  · cases h
    rfl
  · cases h

theorem isUnnested_of_element {settings : Settings} {text : List Char}
    {negated : Bool} {cause : Cause}
    (h : element settings text negated = .error cause) :
    cause.isUnnested = false := by
  unfold element at h
  split at h
  · cases h
    rfl
  split at h
  next shape s htext =>
    exact Address.isUnnested_of_ofName (except_map_eq_error_iff.mp h)
  · split at h
    next cause' hdangling =>
      cases h
      exact isUnnested_of_dangling? hdangling
    · cases h

theorem isUnnested_of_read {settings : Settings} {text : List Char}
    {negated : Bool} {fault : Fault}
    (h : read settings text negated = .error fault) :
    fault.cause.isUnnested = false := by
  unfold read at h
  cases helement : element settings text negated with
  | ok e =>
      rw [helement] at h
      cases h
  | error cause =>
      rw [helement] at h
      cases h
      exact isUnnested_of_element helement

end Fragment

/-!
# Levels that are too deep
-/

namespace Level

variable {settings : Settings}

/-- A level whose brackets nest within the limit is not refused for them, and
neither are the groups in it. -/
theorem isUnnested_of_nestsWithin {l : Level}
    (h : Bracket.NestsWithin (l.limit - l.depth) 0
      (Text.brackets false l.text)) {fault : Fault}
    (hread : l.read settings = .error fault) :
    fault.cause.isUnnested = false := by
  induction l using Level.induction with
  | step l ih =>
      rcases cases_of_read_eq_error hread with
        ⟨_, _, _, _, hfragment⟩ | ⟨p, inner, hp, hbody, hinner⟩ | houtline
      · exact Fragment.isUnnested_of_read hfragment
      · have hnests := (Outline.nestsWithin_of_mem_ofLevel hp hbody).2
        exact ih p hp inner hbody hnests hinner
      · rw [Outline.cause_of_nestsWithin h houtline]
        rfl

theorem fault?_of_tooDeep {l : Level} {fault : Fault}
    (h : l.read settings = .error fault)
    (hkind : fault.cause.kind = .tooDeeplyNested) :
    (Outline.ofLevel l).fault? = some fault := by
  have hunnested := Cause.isUnnested_of_tooDeep hkind
  rcases cases_of_read_eq_error h with
    ⟨_, _, _, _, hfragment⟩ | ⟨p, inner, hp, hbody, hinner⟩ | houtline
  · rw [Fragment.isUnnested_of_read hfragment] at hunnested
    cases hunnested
  · have hnests := (Outline.nestsWithin_of_mem_ofLevel hp hbody).2
    rw [isUnnested_of_nestsWithin (l := l.inner inner) hnests hinner]
      at hunnested
    cases hunnested
  · exact houtline

end Level

namespace Query

/-- The brackets of a text that is parsed are closed in order and stay within the
limit, and in a text that is too deep more of them are open than the limit
allows. -/
theorem brackets_of_parse (settings : Settings) (text : String) :
    (forall q, parse settings text = .ok q ->
      (forall p, p <+: Text.brackets false text.toList ->
        p.count .closing ≤ p.count .opening ∧
          Bracket.openAfter 0 p ≤ settings.maxDepth) ∧
      (Text.brackets false text.toList).count .opening =
        (Text.brackets false text.toList).count .closing) ∧
    forall error, parse settings text = .error error ->
      error.kind = .tooDeeplyNested ->
        exists p, p <+: text.toList ∧
          settings.maxDepth < Bracket.openAfter 0 (Text.brackets false p) := by
  constructor
  · intro q h
    rcases Level.read_eq_ok_iff.mp (parse_eq_ok_iff.mp h) with
      ⟨_, _, hfault, _⟩
    have hnests : Bracket.NestsWithin settings.maxDepth 0
        (Text.brackets false text.toList) :=
      Outline.nestsWithin_of_ofLevel hfault
    constructor
    · intro p hp
      rcases Bracket.prefix_of_nestsWithin hnests (Nat.zero_le _) hp with
        ⟨hcount, hopen⟩
      rw [Nat.zero_add] at hcount
      exact ⟨hcount, hopen⟩
    · have hcount := Bracket.count_of_nestsWithin hnests
      rw [Nat.zero_add] at hcount
      exact hcount.symm
  · intro error h hkind
    rcases exists_of_parse_eq_error h with ⟨fault, hread, rfl⟩
    have houtline := Level.fault?_of_tooDeep hread hkind
    rcases Reading.exists_prefix_of_tooDeep (r := {}) houtline hkind with
      ⟨p, hp, hlt⟩
    rw [Nat.zero_add] at hlt
    exact ⟨p, hp, hlt⟩

theorem brackets_of_parse_escaped :
    parse { maxDepth := 1 } "NOT(title=a\\))" = .ok (.single (.group (.single
        (.term { address := .field .title, value := "a)" })) true)) ∧
      Text.brackets false "NOT(title=a\\))".toList = [.opening, .closing] ∧
      (forall p, p <+: [Bracket.opening, .closing] ->
        p.count .closing ≤ p.count .opening ∧ Bracket.openAfter 0 p ≤ 1) ∧
      parse { maxDepth := 1 } "() (title=a (" = .error
        { cause := .tooDeep 1, fragment := "() (title=a (",
          query := "() (title=a (" } ∧
      exists p, p <+: "() (title=a (".toList ∧
        1 < Bracket.openAfter 0 (Text.brackets false p) := by
  have hok : parse { maxDepth := 1 } "NOT(title=a\\))" =
      .ok (.single (.group (.single
        (.term { address := .field .title, value := "a)" })) true)) := rfl
  have herror : parse { maxDepth := 1 } "() (title=a (" = .error
      { cause := .tooDeep 1, fragment := "() (title=a (",
        query := "() (title=a (" } := rfl
  exact ⟨hok, rfl,
    ((brackets_of_parse { maxDepth := 1 } "NOT(title=a\\))").1 _ hok).1, herror,
    (brackets_of_parse { maxDepth := 1 } "() (title=a (").2 _ herror rfl⟩

end Query

end SearchQuery
