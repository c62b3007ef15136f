import Mathlib.Data.List.Infix
import SearchQuery.Proofs.Outline.Part

/-!
# A scanner with flags

The pass over the characters of a level as one loop, with a buffer for the part that
is read, a count of open brackets and a few flags.  The loop puts every character
into the buffer first.  What the character is, and whether the part is complete with
it, is decided afterwards, by the flags and the text of the buffer.
-/

namespace SearchQuery

/-- Where a scanner stands. -/
structure Scanner where
  part : List Char := []
  depth : Nat := 0
  inBracket : Bool := false
  negated : Bool := false
  relation : Relation := .and
  headDone : Bool := false
  escaped : Bool := false
  deriving DecidableEq, Repr

namespace Scanner

def endsWithStopWord (part : List Char) : Bool :=
  (Relation.stopWord .and).isSuffixOf part ||
    (Relation.stopWord .or).isSuffixOf part

def stripRelation (fragment : List Char) : List Char :=
  Text.trim
    (((fragment.dropSuffix? (Relation.ending .and)).or
      (fragment.dropSuffix? (Relation.ending .or))).getD fragment)

def relationBehind (fragment : List Char) : Relation :=
  if "OR".toList.isSuffixOf fragment then .or else .and

def inside? (fragment : List Char) : Option (List Char) :=
  (fragment.dropPrefix? ['(']).bind (fun rest => rest.dropSuffix? [')'])

def piece (s : Scanner) (body : Body) : Piece where
  relation := s.relation
  negated := s.negated
  body := body

def push (s : Scanner) (c : Char) : Scanner :=
  { s with part := s.part ++ [c], escaped := Text.escapesNext s.escaped c }

def count (l : Level) (s : Scanner) : Option Bracket -> Except Fault Scanner
  | none => .ok s
  | some .opening =>
      if l.allows (s.depth + 1) then
        .ok { s with depth := s.depth + 1, inBracket := true }
      else .error ⟨.tooDeep l.limit, l.text⟩
  | some .closing =>
      match s.depth with
      | 0 => .error ⟨.unmatchedClose, Text.trim s.part⟩
      | depth + 1 => .ok { s with depth := depth }

def heed (s : Scanner) : Keyword -> Scanner
  | .not => { s with negated := true }
  | .relation relation => { s with relation := relation }

/-- Take a part that is complete. -/
def complete (s : Scanner) : Except Fault (Option Piece × Scanner) :=
  let fragment := Text.trim s.part
  if s.inBracket && s.depth == 0 then
    match inside? fragment with
    | some inner =>
        .ok (some (s.piece (.bracketed inner)),
          { s with
            part := [], headDone := false, inBracket := false
            negated := false })
    | none => .error ⟨.strayGroup, fragment⟩
  else if !s.inBracket && endsWithStopWord s.part then
    .ok (some (s.piece (.flat (stripRelation fragment))),
      { s with
        part := [], headDone := false, negated := false
        relation := relationBehind fragment })
  else .ok (none, s)

/-- The first word of a part has ended with a character.  A reserved word is
dropped, and the part begins anew. -/
def endHead (s : Scanner) (head : List Char) (c : Char) :
    Except Fault (Option Piece × Scanner) :=
  match Keyword.ofWord? head with
  | some k =>
      .ok (none,
        { s.heed k with
          part := if c = '(' then [c] else [], headDone := c == '(' })
  | none => complete { s with headDone := true }

def step (l : Level) (s : Scanner) (c : Char) :
    Except Fault (Option Piece × Scanner) :=
  if s.part.isEmpty && Text.isBlank c then .ok (none, s)
  else
    let bracket? := Text.bracket? s.escaped c
    match (s.push c).count l bracket? with
    | .error fault => .error fault
    | .ok next =>
        if !next.headDone && (Text.isBlank c || bracket? == some .opening) then
          next.endHead s.part c
        else next.complete

def run (l : Level) (s : Scanner) :
    List Char -> List Piece × Except Fault Scanner
  | [] => ([], .ok s)
  | c :: rest =>
      match s.step l c with
      | .error fault => ([], .error fault)
      | .ok (piece?, next) =>
          let tail := next.run l rest
          (piece?.toList ++ tail.1, tail.2)

def finish (s : Scanner) : Outline :=
  let fragment := Text.trim s.part
  if s.depth > 0 then ⟨[], some ⟨.unmatchedOpen, fragment⟩⟩
  else if fragment.isEmpty then ⟨[], none⟩
  else ⟨[s.piece (.flat (stripRelation fragment))], none⟩

def outline (l : Level) : Outline :=
  match ({} : Scanner).run l l.text with
  | (pieces, .ok s) =>
      let tail := s.finish
      ⟨pieces ++ tail.pieces, tail.fault?⟩
  | (pieces, .error fault) => ⟨pieces, some fault⟩

end Scanner

/-!
# Parts that are complete
-/

theorem Text.dropSuffix?_append (text ending : List Char) :
    (text ++ ending).dropSuffix? ending = some text :=
  List.dropSuffix?_eq_some_iff.mpr ⟨ending, rfl, beq_self_eq_true ending⟩

theorem Text.dropSuffix?_eq_none {text ending : List Char}
    (h : ¬ ending <:+ text) : text.dropSuffix? ending = none := by
  cases hdrop : text.dropSuffix? ending with
  | none => rfl
  | some front =>
      rcases List.dropSuffix?_eq_some_iff.mp hdrop with ⟨ending', rfl, heq⟩
      rw [beq_iff_eq] at heq
      rw [heq] at h
      exact absurd (List.suffix_append front ending) h

namespace Scanner

theorem endsWithStopWord_eq (p : Part) :
    endsWithStopWord p.text = p.stopWord?.isSome := by
  rw [Bool.eq_iff_iff, endsWithStopWord, Bool.or_eq_true,
    List.isSuffixOf_iff_suffix, List.isSuffixOf_iff_suffix,
    Option.isSome_iff_exists]
  constructor
  · rintro (h | h)
    · exact ⟨_, Part.stopWord?_eq_some_iff.mpr h⟩
    · exact ⟨_, Part.stopWord?_eq_some_iff.mpr h⟩
  · rintro ⟨r, h⟩
    rw [Part.stopWord?_eq_some_iff] at h
    cases r with
    | and => exact Or.inl h
    | or => exact Or.inr h

theorem relationBehind_ending (front : List Char) (r : Relation) :
    relationBehind (front ++ r.ending) = r := by
  rw [relationBehind, List.isSuffixOf, List.reverse_append]
  cases r <;> rfl

theorem stripRelation_ending (front : List Char) (r : Relation) :
    stripRelation (front ++ r.ending) = Text.trim front := by
  rw [stripRelation]
  cases r with
  | and => rw [Text.dropSuffix?_append, Option.some_or, Option.getD_some]
  | or =>
      have hnone : (front ++ Relation.ending .or).dropSuffix?
          (Relation.ending .and) = none := by
        apply Text.dropSuffix?_eq_none
        rw [← List.reverse_prefix, List.reverse_append]
        intro h
        cases (List.cons_prefix_cons.mp h).1
      rw [hnone, Option.none_or, Text.dropSuffix?_append, Option.getD_some]

/-- The fragment that a scanner takes from a part is the term of the part. -/
theorem stripRelation_trim {p : Part} {c : Char} {text : List Char}
    (h : p.text = c :: text) (hc : Text.isBlank c = false) :
    stripRelation (Text.trim p.text) = p.term := by
  have hfragment : Text.trim p.text = Text.trimEnd p.text := by
    rw [h, Text.trim_of_not_blank hc]
  rcases Text.exists_trim_eq_cons hc text with ⟨rest, hrest⟩
  rw [← h, hfragment] at hrest
  by_cases hend : Text.NoEnding (Text.trimEnd p.text)
  · rw [Part.term_of_no_ending hend, hfragment, stripRelation,
      Text.dropSuffix?_eq_none (hend .and), Text.dropSuffix?_eq_none (hend .or),
      Option.none_or, Option.getD_none, hrest, Text.trim_of_not_blank hc,
      ← hrest, Text.trimEnd_trimEnd]
  · rcases Classical.not_forall.mp hend with ⟨r, hr⟩
    rcases Classical.not_not.mp hr with ⟨front, hfront⟩
    rw [Part.term_of_ending hfront.symm, hfragment, ← hfront,
      stripRelation_ending]
    -- The word of the relation is not the whole part, which begins with no blank.
    cases front with
    | nil =>
        rw [hrest] at hfront
        injection hfront with hd _
        rw [← hd] at hc
        cases hc
    | cons d front =>
        rw [hrest] at hfront
        injection hfront with hd _
        rw [hd, Text.trim_of_not_blank hc]

theorem inside?_concat_eq_some_iff {text inner : List Char} :
    inside? (text ++ [')']) = some inner <-> text = '(' :: inner := by
  simp only [inside?, Option.bind_eq_some_iff, List.dropPrefix?_eq_some_iff,
    List.dropSuffix?_eq_some_iff, beq_iff_eq]
  constructor
  · rintro ⟨_, ⟨_, htext, rfl⟩, _, rfl, rfl⟩
    exact List.append_cancel_right htext
  · rintro rfl
    exact ⟨inner ++ [')'], ⟨['('], rfl, rfl⟩, [')'], rfl, rfl⟩

variable {l : Level} {s : Scanner} {c : Char}

theorem complete_of_open (hin : s.inBracket = true) (hdepth : s.depth ≠ 0) :
    s.complete = .ok (none, s) := by
  rw [complete, hin, beq_false_of_ne hdepth]
  rfl

section Group

variable {fragment : List Char} (hin : s.inBracket = true) (hdepth : s.depth = 0)
  (hfragment : Text.trim s.part = fragment)
include hin hdepth hfragment

theorem complete_of_inside {inner : List Char}
    (h : inside? fragment = some inner) :
    s.complete =
      .ok (some (s.piece (.bracketed inner)),
        { s with
          part := [], headDone := false, inBracket := false
          negated := false }) := by
  rw [complete, hin, hdepth, hfragment]
  simp only [h, beq_self_eq_true, Bool.and_self, if_true]

theorem complete_of_stray (h : inside? fragment = none) :
    s.complete = .error ⟨.strayGroup, fragment⟩ := by
  rw [complete, hin, hdepth, hfragment]
  simp only [h, beq_self_eq_true, Bool.and_self, if_true]

end Group

theorem complete_of_no_stopWord (hin : s.inBracket = false)
    (hstop : endsWithStopWord s.part = false) :
    s.complete = .ok (none, s) := by
  rw [complete, hin, hstop]
  rfl

theorem complete_of_stopWord {p : Part} {d : Char} {text : List Char}
    {r : Relation} (hpart : s.part = p.text) (hin : s.inBracket = false)
    (htext : p.text = d :: text) (hd : Text.isBlank d = false)
    (hstop : p.stopWord? = some r) :
    s.complete =
      .ok (some (s.piece (.flat p.term)),
        { s with
          part := [], headDone := false, negated := false, relation := r }) := by
  have hends : endsWithStopWord s.part = true := by
    rw [hpart, endsWithStopWord_eq, hstop]
    rfl
  have hbehind : relationBehind (Text.trim s.part) = r := by
    rcases Part.stopWord?_eq_some_iff.mp hstop with ⟨front, hfront⟩
    rw [hpart, htext, Text.trim_of_not_blank hd, ← htext, ← hfront,
      Relation.stopWord, ← List.append_assoc, Text.trimEnd_concat_of_blank rfl,
      Text.trimEnd_append_ending, relationBehind_ending]
  simp only [complete, hin, hends, hbehind, Bool.false_and, Bool.not_false,
    Bool.and_self, Bool.false_eq_true, if_false, if_true]
  rw [hpart, stripRelation_trim htext hd]

theorem endHead_of_none {head : List Char}
    (h : Keyword.ofWord? head = none) (c : Char) :
    s.endHead head c = complete { s with headDone := true } := by
  rw [endHead, h]

/-!
# Steps
-/

theorem count_of_none (h : Text.bracket? s.escaped c = none) :
    (s.push c).count l (Text.bracket? s.escaped c) = .ok (s.push c) := by
  rw [h]
  rfl

section Step

variable {next : Scanner} (hskip : s.part ≠ [] ∨ Text.isBlank c = false)
include hskip

theorem isEmpty_and_isBlank : (s.part.isEmpty && Text.isBlank c) = false := by
  rcases hskip with hne | hblank
  · rw [List.isEmpty_eq_false_iff.mpr hne, Bool.false_and]
  · rw [hblank, Bool.and_false]

theorem step_of_error {fault : Fault}
    (h : (s.push c).count l (Text.bracket? s.escaped c) = .error fault) :
    s.step l c = .error fault := by
  simp only [step, isEmpty_and_isBlank hskip, h, Bool.false_eq_true, if_false]

theorem step_of_ok
    (h : (s.push c).count l (Text.bracket? s.escaped c) = .ok next)
    (hhead : next.headDone = true ∨
      Text.isBlank c = false ∧ Text.bracket? s.escaped c ≠ some .opening) :
    s.step l c = next.complete := by
  simp only [step, isEmpty_and_isBlank hskip, h, Bool.false_eq_true, if_false]
  rw [if_neg]
  rcases hhead with hdone | ⟨hblank, hopening⟩
  · simp [hdone]
  · simp [hblank, hopening]

theorem step_of_endHead
    (h : (s.push c).count l (Text.bracket? s.escaped c) = .ok next)
    (hdone : next.headDone = false)
    (hends : Text.isBlank c = true ∨
      Text.bracket? s.escaped c = some .opening) :
    s.step l c = next.endHead s.part c := by
  simp only [step, isEmpty_and_isBlank hskip, h, Bool.false_eq_true, if_false]
  rw [if_pos]
  simpa [hdone] using hends

theorem step_of_neither (hbracket : Text.bracket? s.escaped c = none)
    (hhead : s.headDone = true ∨ Text.isBlank c = false) :
    s.step l c = (s.push c).complete := by
  apply step_of_ok hskip (count_of_none hbracket)
  rw [hbracket]
  exact hhead.imp id (fun hblank => ⟨hblank, by simp⟩)

end Step

section Blank

variable (hne : s.part ≠ []) (hblank : Text.isBlank c = true)
  (hdone : s.headDone = false)
include hne hblank hdone

theorem step_of_blank : s.step l c = (s.push c).endHead s.part c := by
  have hbracket : Text.bracket? s.escaped c = none :=
    Text.bracket?_of_ne (Text.ne_of_isBlank hblank rfl)
      (Text.ne_of_isBlank hblank rfl) _
  exact step_of_endHead (Or.inl hne) (count_of_none hbracket) hdone
    (Or.inl hblank)

theorem step_of_keyword {k : Keyword} (hk : Keyword.ofWord? s.part = some k) :
    s.step l c = .ok (none, { s.heed k with part := [], escaped := false }) := by
  have hopen : c ≠ '(' := Text.ne_of_isBlank hblank rfl
  have hescaped : Text.escapesNext s.escaped c = false :=
    Text.escapesNext_of_ne (Text.ne_of_isBlank hblank rfl) _
  rw [step_of_blank hne hblank hdone, endHead, hk]
  simp only [if_neg hopen, beq_false_of_ne hopen, push, hescaped]
  cases k <;> simp only [heed, hdone]

end Blank

section Bracket

theorem not_blank_of_bracket? {b : Bracket}
    (h : Text.bracket? s.escaped c = some b) : Text.isBlank c = false := by
  cases b with
  | opening =>
      rw [Text.eq_of_bracket?_opening h]
      rfl
  | closing =>
      rw [Text.eq_of_bracket?_closing h]
      rfl

theorem step_of_full (hbracket : Text.bracket? s.escaped c = some .opening)
    (hfull : l.allows (s.depth + 1) = false) :
    s.step l c = .error ⟨.tooDeep l.limit, l.text⟩ := by
  apply step_of_error (Or.inr (not_blank_of_bracket? hbracket))
  rw [hbracket, count]
  apply if_neg
  rw [Bool.not_eq_true]
  exact hfull

theorem count_of_opening
    (hbracket : Text.bracket? s.escaped c = some .opening)
    (hallows : l.allows (s.depth + 1) = true) :
    (s.push c).count l (Text.bracket? s.escaped c) =
      .ok { s.push c with depth := s.depth + 1, inBracket := true } := by
  rw [hbracket]
  exact if_pos hallows

theorem step_of_opening
    (hbracket : Text.bracket? s.escaped c = some .opening)
    (hallows : l.allows (s.depth + 1) = true)
    (hword : s.headDone = true ∨ Keyword.ofWord? s.part = none) :
    s.step l c =
      .ok (none,
        { s.push c with
          depth := s.depth + 1, inBracket := true, headDone := true }) := by
  have hskip := not_blank_of_bracket? hbracket
  have hcount := count_of_opening hbracket hallows
  cases hdone : s.headDone with
  | true =>
      rw [step_of_ok (Or.inr hskip) hcount (Or.inl hdone),
        complete_of_open rfl (Nat.succ_ne_zero _)]
      simp only [push, hdone]
  | false =>
      rw [hdone] at hword
      rw [step_of_endHead (Or.inr hskip) hcount hdone (Or.inr hbracket),
        endHead_of_none (hword.resolve_left Bool.false_ne_true),
        complete_of_open rfl (Nat.succ_ne_zero _)]

theorem step_of_openingBehind {k : Keyword}
    (hbracket : Text.bracket? s.escaped c = some .opening)
    (hallows : l.allows (s.depth + 1) = true) (hdone : s.headDone = false)
    (hk : Keyword.ofWord? s.part = some k) :
    s.step l c =
      .ok (none,
        { s.heed k with
          part := ['('], depth := s.depth + 1, inBracket := true
          headDone := true, escaped := false }) := by
  have hskip := not_blank_of_bracket? hbracket
  have hcount := count_of_opening hbracket hallows
  have hescaped : Text.escapesNext s.escaped '(' = false :=
    Text.escapesNext_of_ne (by decide) _
  rw [step_of_endHead (Or.inr hskip) hcount hdone (Or.inr hbracket), endHead, hk,
    Text.eq_of_bracket?_opening hbracket]
  simp only [push, hescaped]
  cases k <;> rfl

theorem step_of_unmatched
    (hbracket : Text.bracket? s.escaped c = some .closing)
    (hdepth : s.depth = 0) :
    s.step l c = .error ⟨.unmatchedClose, Text.trim (s.part ++ [')'])⟩ := by
  apply step_of_error (Or.inr (not_blank_of_bracket? hbracket))
  rw [hbracket, Text.eq_of_bracket?_closing hbracket]
  simp only [count, push, hdepth]

theorem step_of_closing {depth : Nat}
    (hbracket : Text.bracket? s.escaped c = some .closing)
    (hdepth : s.depth = depth + 1) (hdone : s.headDone = true) :
    s.step l c =
      complete
        { s with
          part := s.part ++ [')'], depth := depth, escaped := false } := by
  have hescaped : Text.escapesNext s.escaped ')' = false :=
    Text.escapesNext_of_ne (by decide) _
  have hcount : (s.push c).count l (Text.bracket? s.escaped c) =
      .ok { s with
        part := s.part ++ [')'], depth := depth, escaped := false } := by
    rw [hbracket, Text.eq_of_bracket?_closing hbracket]
    simp only [count, push, hdepth, hescaped]
  exact step_of_ok (Or.inr (not_blank_of_bracket? hbracket)) hcount
    (Or.inl hdone)

end Bracket

end Scanner

end SearchQuery
