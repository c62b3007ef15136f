import Mathlib.Logic.Relation
import SearchQuery.Proofs.Nesting

/-!
# Levels within levels

The groups of a text are levels of their own, read from the level around them.  By
then the brackets of a group have been seen and counted, so a level within another
one stays within the limit and is never refused for its brackets.  A reading that
refuses to go beyond the limit is therefore the same, and it ends because of the
limit alone.
-/

namespace SearchQuery

namespace Level

/-- One level is read from another: it is a group of its outline, and the pieces in
front of the group are read without a fault. -/
inductive Calls (settings : Settings) (l : Level) : Level -> Prop where
  | group {front back : List Piece} {p : Piece} {inner : List Char}
      {js : List (Relation × Element)} :
      (Outline.ofLevel l).pieces = front ++ p :: back ->
      Piece.joints (Fragment.read settings)
        (fun inner => (l.inner inner).read settings) front = .ok js ->
      p.body = .bracketed inner -> Calls settings l (l.inner inner)

structure Bounded (l : Level) : Prop where
  depth_le : l.depth ≤ l.limit
  nests : Bracket.NestsWithin (l.limit - l.depth) 0 (Text.brackets false l.text)

variable {settings : Settings} {l l' : Level}

theorem bounded_inner {p : Piece} (hp : p ∈ (Outline.ofLevel l).pieces)
    {inner : List Char} (hbody : p.body = .bracketed inner) :
    (l.inner inner).Bounded := by
  rcases Outline.nestsWithin_of_mem_ofLevel hp hbody with ⟨hlt, hnests⟩
  exact ⟨hlt, hnests⟩

theorem Calls.bounded (h : Calls settings l l') :
    l'.limit = l.limit ∧ l'.Bounded := by
  cases h with
  | group hpieces _ hbody =>
      refine ⟨rfl, bounded_inner ?_ hbody⟩
      rw [hpieces]
      exact List.mem_append_right _ List.mem_cons_self

theorem bounded_of_calls (h : Relation.TransGen (Calls settings) l l') :
    l'.limit = l.limit ∧ l'.Bounded := by
  induction h with
  | single hcall => exact hcall.bounded
  | tail _ hcall ih => exact ⟨hcall.bounded.1.trans ih.1, hcall.bounded.2⟩

/-- Read a level, but only as deep as the limit: what is deeper is left to
`refuse`. -/
def readGuarded (refuse : Level -> Except Fault Query) (settings : Settings)
    (l : Level) : Except Fault Query :=
  if _ : l.depth ≤ l.limit then
    (Outline.ofLevel l).toQuery (Fragment.read settings)
      (fun inner => readGuarded refuse settings (l.inner inner))
  else refuse l
termination_by l.limit + 1 - l.depth
decreasing_by
  show l.limit + 1 - (l.depth + 1) < l.limit + 1 - l.depth
  omega

theorem readGuarded_eq (refuse : Level -> Except Fault Query)
    (h : l.depth ≤ l.limit) :
    l.readGuarded refuse settings = l.read settings := by
  induction l using Level.induction with
  | step l ih =>
      rw [readGuarded, dif_pos h, read_eq]
      apply Outline.toQuery_congr
      intro p hp inner hbody
      exact ih p hp inner hbody (bounded_inner hp hbody).depth_le

end Level

namespace Query

def parseGuarded (refuse : Level -> Except Fault Query) (settings : Settings)
    (text : String) : Except ParseError Query :=
  (Level.readGuarded refuse settings
    { text := text.toList, limit := settings.maxDepth }).mapError
      (ParseError.ofFault text)

/-- Every level that is read within a text stays within the limit, has its brackets
closed in order, and is not refused for them.  So a text that is too deep is
refused as a whole, and no level is ever read beyond the limit. -/
theorem bounded_levels (settings : Settings) (text : String) :
    (forall l, Relation.TransGen (Level.Calls settings)
        { text := text.toList, limit := settings.maxDepth } l ->
      l.depth ≤ settings.maxDepth ∧
      Bracket.NestsWithin (settings.maxDepth - l.depth) 0
        (Text.brackets false l.text) ∧
      forall fault, l.read settings = .error fault ->
        fault.cause.kind ≠ .tooDeeplyNested ∧ fault.cause ≠ .unmatchedOpen ∧
          fault.cause ≠ .unmatchedClose) ∧
    (forall error, parse settings text = .error error ->
      error.kind = .tooDeeplyNested -> error.fragment = text) ∧
    forall refuse, parseGuarded refuse settings text = parse settings text := by
  refine ⟨?_, ?_, ?_⟩
  · intro l hl
    rcases Level.bounded_of_calls hl with ⟨hlimit, hdepth, hnests⟩
    rw [hlimit] at hdepth
    refine ⟨hdepth, ?_, ?_⟩
    · rw [hlimit] at hnests
      exact hnests
    · intro fault hread
      have hcause := Level.isUnnested_of_nestsWithin hnests hread
      refine ⟨?_, ?_, ?_⟩
      · intro hkind
        rw [Cause.isUnnested_of_tooDeep hkind] at hcause
        cases hcause
      · intro hopen
        rw [hopen] at hcause
        cases hcause
      · intro hclose
        rw [hclose] at hcause
        cases hcause
  · intro error h hkind
    rcases exists_of_parse_eq_error h with ⟨fault, hread, rfl⟩
    have houtline := Level.fault?_of_tooDeep hread hkind
    have hfragment : fault.fragment = text.toList :=
      Reading.fragment_of_tooDeep (r := {}) houtline hkind
    show String.ofList fault.fragment = text
    rw [hfragment, String.ofList_toList]
  · intro refuse
    exact congrArg _ (Level.readGuarded_eq refuse (Nat.zero_le _))

theorem bounded_levels_twice :
    Relation.TransGen (Level.Calls { maxDepth := 2 })
        { text := "a OR NOT(b AND (colour=\\()) (".toList, limit := 2 }
        { text := "colour=\\(".toList, depth := 2, limit := 2 } ∧
      Level.read { maxDepth := 2 }
          { text := "colour=\\(".toList, depth := 2, limit := 2 } =
        .error ⟨.unknownField "colour", "colour=\\(".toList⟩ ∧
      Bracket.NestsWithin 0 0 (Text.brackets false "colour=\\(".toList) ∧
      (Cause.unknownField "colour").kind ≠ .tooDeeplyNested ∧
      parse { maxDepth := 1 } "a OR NOT(b AND (colour=\\()) (" = .error
        { cause := .tooDeep 1, fragment := "a OR NOT(b AND (colour=\\()) (",
          query := "a OR NOT(b AND (colour=\\()) (" } ∧
      parseGuarded (fun _ => .ok .nil) { maxDepth := 1 } "(title=a)" =
        .ok (.single (.group (.single (.term
          { address := .field .title, value := "a" })) false)) := by
  have hcalls : Relation.TransGen (Level.Calls { maxDepth := 2 })
      { text := "a OR NOT(b AND (colour=\\()) (".toList, limit := 2 }
      { text := "colour=\\(".toList, depth := 2, limit := 2 } := by
    apply Relation.TransGen.tail (b :=
      { text := "b AND (colour=\\()".toList, depth := 1, limit := 2 })
    · exact Relation.TransGen.single (@Level.Calls.group _ _
        [⟨.and, false, .flat "a".toList⟩] []
        ⟨.or, true, .bracketed "b AND (colour=\\()".toList⟩ _ _ rfl rfl rfl)
    · exact @Level.Calls.group _ _ [⟨.and, false, .flat "b".toList⟩] []
        ⟨.and, false, .bracketed "colour=\\(".toList⟩ _ _ rfl rfl rfl
  have hread : Level.read { maxDepth := 2 }
      { text := "colour=\\(".toList, depth := 2, limit := 2 } =
        .error ⟨.unknownField "colour", "colour=\\(".toList⟩ := rfl
  have herror : parse { maxDepth := 1 } "a OR NOT(b AND (colour=\\()) (" = .error
      { cause := .tooDeep 1, fragment := "a OR NOT(b AND (colour=\\()) (",
        query := "a OR NOT(b AND (colour=\\()) (" } := rfl
  rcases bounded_levels { maxDepth := 2 } "a OR NOT(b AND (colour=\\()) (" with
    ⟨hlevels, _, _⟩
  rcases hlevels _ hcalls with ⟨_, hnests, hfault⟩
  refine ⟨hcalls, hread, hnests, (hfault _ hread).1, herror, ?_⟩
  exact ((bounded_levels { maxDepth := 1 } "(title=a)").2.2 (fun _ => .ok .nil)).trans rfl

end Query

end SearchQuery
