import SearchQuery.Proofs.Outline.Continuation

/-!
# Blanks around a text

Blanks in front of a text and behind it do not change what the text is read as, or
the kind of the error it is refused with.  The exception is a reserved word at the
very end: a blank behind it makes it a word of the language.
-/

namespace SearchQuery

namespace Text

/-- A reserved word stands alone at the end of a text. -/
def EndsInKeyword (text : List Char) : Prop :=
  exists (k : Keyword) (front : List Char),
    text = front ++ k.word.toList ∧ EndsApart front

theorem endsInKeyword_of_ending {text : List Char} {r : Relation}
    (h : r.ending <:+ text) : EndsInKeyword text := by
  rcases h with ⟨front, rfl⟩
  refine ⟨.relation r, front ++ [' '], ?_, endsApart_concat (Or.inl rfl) front⟩
  rw [List.append_assoc]
  rfl

end Text

theorem except_cases_of_mapError_eq {ε ε' α : Type} {x y : Except ε α} {f : ε -> ε'}
    (h : x.mapError f = y.mapError f) :
    (exists a, x = .ok a ∧ y = .ok a) ∨
      exists e e', x = .error e ∧ y = .error e' ∧ f e = f e' := by
  cases x with
  | ok a => exact Or.inl ⟨a, rfl, except_mapError_eq_ok_iff.mp h.symm⟩
  | error e =>
      cases y with
      | ok b => cases h
      | error e' =>
          injection h with h
          exact Or.inr ⟨e, e', rfl, rfl, h⟩

structure Outline.Agrees (o o' : Outline) : Prop where
  pieces : o.pieces = o'.pieces
  cause : o.fault?.map Fault.cause = o'.fault?.map Fault.cause

theorem Outline.Agrees.cause_toQuery {o o' : Outline} (h : o.Agrees o')
    (term : List Char -> Bool -> Except Fault Element)
    (nested : List Char -> Except Fault Query) :
    (o.toQuery term nested).mapError Fault.cause =
      (o'.toQuery term nested).mapError Fault.cause := by
  rcases o with ⟨pieces, fault?⟩
  rcases o' with ⟨pieces', fault?'⟩
  rcases h with ⟨hpieces, hcause⟩
  cases hpieces
  rw [toQuery, toQuery]
  cases Piece.joints term nested pieces with
  | error fault => rfl
  | ok js =>
      cases fault? with
      | none =>
          cases fault?' with
          | none => rfl
          | some fault => cases hcause
      | some fault =>
          cases fault?' with
          | none => cases hcause
          | some fault' => exact congrArg Except.error (Option.some.inj hcause)

namespace Reading

theorem Stands.endsInKeyword {r : Reading} {done : List Char} (h : r.Stands done)
    (hopen : r.openBrackets = 0) {k : Keyword}
    (hword : Keyword.ofWord? r.part.text = some k) : Text.EndsInKeyword done := by
  rcases h.split with ⟨front, rfl, hfront⟩
  rw [Keyword.ofWord?_eq_some_iff.mp hword]
  exact ⟨k, front, rfl, hfront hopen⟩

theorem Stands.noEnding {r : Reading} {done : List Char} (h : r.Stands done)
    (hend : ¬ Text.EndsInKeyword done) : Text.NoEnding r.part.text := by
  intro s hs
  rcases h.split with ⟨front, rfl, _⟩
  exact hend (Text.endsInKeyword_of_ending (hs.trans (List.suffix_append _ _)))

theorem outline_surrounded (l : Level) {text front back : List Char}
    (h : ¬ Text.EndsInKeyword text)
    (hfront : forall c, c ∈ front -> Text.isBlank c = true)
    (hback : forall c, c ∈ back -> Text.isBlank c = true) (shown : List Char) :
    (Reading.outline { l with text := shown } {}
      (front ++ (text ++ back))).Agrees (Reading.outline l {} text) := by
  have hself := outline_append l {} text []
  rw [List.append_nil] at hself
  rw [outline_blanks rfl hfront, outline_append, hself]
  rcases run_withText l {} shown text with ⟨hpieces, hcause⟩
  rcases hrun : Reading.run l {} text with ⟨pieces, result⟩
  rcases hrun' : Reading.run { l with text := shown } {} text with
    ⟨pieces', result'⟩
  rw [hrun, hrun'] at hpieces hcause
  cases hpieces
  rcases except_cases_of_mapError_eq hcause with
    ⟨last, rfl, rfl⟩ | ⟨fault', fault, rfl, rfl, hfault⟩
  · have hok := congrArg Prod.snd hrun
    have hcoherent := coherent_of_run hok
    have hstands := stands_of_run hok
    have hword : last.openBrackets = 0 ->
        Keyword.ofWord? last.part.text = none := by
      intro hopen
      cases hword : Keyword.ofWord? last.part.text with
      | none => rfl
      | some k => exact absurd (hstands.endsInKeyword hopen hword) h
    show (Outline.prepend _ _).Agrees (Outline.prepend _ _)
    rw [hcoherent.outline_blanks_end hword (fun _ => hstands.noEnding h) hback,
      outline_nil]
    exact ⟨rfl, rfl⟩
  · exact ⟨rfl, congrArg some hfault⟩

end Reading

theorem Level.cause_read {settings : Settings} {l l' : Level}
    (hdepth : l.depth = l'.depth) (hlimit : l.limit = l'.limit)
    (h : (Outline.ofLevel l).Agrees (Outline.ofLevel l')) :
    (l.read settings).mapError Fault.cause =
      (l'.read settings).mapError Fault.cause := by
  have hinner : l.inner = l'.inner := by
    funext inner
    rw [Level.inner, Level.inner, hdepth, hlimit]
  rw [read_eq, read_eq, hinner]
  exact h.cause_toQuery _ _

namespace Query

theorem cause_read_surrounded (settings : Settings) {text front back : List Char}
    (h : ¬ Text.EndsInKeyword text)
    (hfront : forall c, c ∈ front -> Text.isBlank c = true)
    (hback : forall c, c ∈ back -> Text.isBlank c = true) :
    (read settings (front ++ (text ++ back))).mapError Fault.cause =
      (read settings text).mapError Fault.cause := by
  let l : Level := { text := text, limit := settings.maxDepth }
  have houtline := Reading.outline_surrounded l h hfront hback
    (front ++ (text ++ back))
  show (Level.read settings { l with text := _ }).mapError _ =
    (l.read settings).mapError _
  exact Level.cause_read rfl rfl houtline

/-- Blanks around a text do not matter, unless a reserved word stands alone at its
end: the text is parsed as the same query with them and without, or refused with
errors of one kind. -/
theorem parse_surrounded (settings : Settings) {text front back : String}
    (h : ¬ Text.EndsInKeyword text.toList)
    (hfront : forall c, c ∈ front.toList -> Text.isBlank c = true)
    (hback : forall c, c ∈ back.toList -> Text.isBlank c = true) :
    (exists q, parse settings (front ++ text ++ back) = .ok q ∧
        parse settings text = .ok q) ∨
      exists error error',
        parse settings (front ++ text ++ back) = .error error ∧
          parse settings text = .error error' ∧ error.cause = error'.cause ∧
            error.kind = error'.kind := by
  have hread := cause_read_surrounded settings h hfront hback
  rw [parse, parse, String.toList_append, String.toList_append, List.append_assoc]
  rcases except_cases_of_mapError_eq hread with
    ⟨q, hleft, hright⟩ | ⟨fault, fault', hleft, hright, hcause⟩
  · rw [hleft, hright]
    exact Or.inl ⟨q, rfl, rfl⟩
  · rw [hleft, hright]
    exact Or.inr ⟨_, _, rfl, rfl, hcause, congrArg Cause.kind hcause⟩

theorem parse_surrounded_word :
    ¬ Text.EndsInKeyword "title=SAND".toList ∧
      parse {} "\t\u00a0title=SAND \n" = parse {} "title=SAND" ∧
      ¬ Text.EndsInKeyword "NOT (a AND b".toList ∧
      exists error error',
        parse {} "\nNOT (a AND b\u2003" = .error error ∧
          parse {} "NOT (a AND b" = .error error' ∧ error.kind = error'.kind := by
  have hword : ¬ Text.EndsInKeyword "title=SAND".toList := by
    rintro ⟨_ | _ | _, front, htext, hapart⟩
    · have hlast := congrArg List.getLast? htext
      rw [List.getLast?_append] at hlast
      cases hlast
    · have hfront : "title=S".toList = front :=
        List.append_inj_left' (show "title=S".toList ++ _ = _ from htext) rfl
      rw [← hfront] at hapart
      rcases hapart 'S' rfl with h | h | h <;> cases h
    · have hlast := congrArg List.getLast? htext
      rw [List.getLast?_append] at hlast
      cases hlast
  have hgroup : ¬ Text.EndsInKeyword "NOT (a AND b".toList := by
    rintro ⟨_ | _ | _, front, htext, _⟩ <;>
    · have hlast := congrArg List.getLast? htext
      rw [List.getLast?_append] at hlast
      cases hlast
  have herror : parse {} "NOT (a AND b" = .error
      { cause := .unmatchedOpen, fragment := "(a AND b",
        query := "NOT (a AND b" } := rfl
  refine ⟨hword, ?_, hgroup, ?_⟩
  · have hfront := List.all_eq_true.mp
      (show "\t\u00a0".toList.all Text.isBlank = true from rfl)
    have hback := List.all_eq_true.mp
      (show " \n".toList.all Text.isBlank = true from rfl)
    rcases parse_surrounded {} hword hfront hback with
      ⟨q, hleft, hright⟩ | ⟨_, _, _, hright, _⟩
    · exact hleft.trans hright.symm
    · cases hright
  · have hfront := List.all_eq_true.mp
      (show "\n".toList.all Text.isBlank = true from rfl)
    have hback := List.all_eq_true.mp
      (show "\u2003".toList.all Text.isBlank = true from rfl)
    rcases parse_surrounded {} hgroup hfront hback with
      ⟨q, _, hright⟩ | ⟨error, error', hleft, hright, _, hkind⟩
    · rw [herror] at hright
      cases hright
    · exact ⟨error, error', hleft, hright, hkind⟩

end Query

end SearchQuery
