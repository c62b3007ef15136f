import SearchQuery.Proofs.Outline.Continuation
import SearchQuery.Proofs.Term.Extension

/-!
# A relation at the end

The word of a relation behind a term at the end of a text is cut off, and the text
is parsed as the same query with it and without.  There are two exceptions.  The
word `NOT` is a term only at the very end of a text, and what is put behind it makes
it a word of the language.  And one relation is cut off, not two: what a text ends
with already is a part of the term when another relation follows.
-/

namespace SearchQuery

/-!
# The last piece
-/

namespace Outline

variable {term : List Char -> Bool -> Except Fault Element}
  {nested : List Char -> Except Fault Query} {pieces : List Piece}
  {r : Relation} {q : Query}

theorem exists_last_of_toQuery {n : Bool} {text : List Char}
    (h : toQuery term nested ⟨pieces ++ [⟨r, n, .flat text⟩], none⟩ = .ok q) :
    exists e, term text n = .ok e ∧ q.elements.getLast? = some e := by
  rcases toQuery_eq_ok_iff.mp h with ⟨js, hjs, _, rfl⟩
  rcases Piece.joints_append_eq_ok_iff.mp hjs with ⟨js₁, js₂, _, hlast, rfl⟩
  rcases Piece.joints_cons_eq_ok_iff.mp hlast with ⟨e?, tail, he, htail, rfl⟩
  rcases Piece.element?_flat.mp he with ⟨e, hread, rfl⟩
  cases htail
  refine ⟨e, hread, ?_⟩
  rw [Chain.elements_ofJoints, List.map_append]
  exact List.getLast?_concat

theorem exists_read_of_toQuery {m n : Bool} {a b : List Char}
    (ha : toQuery term nested ⟨pieces ++ [⟨r, m, .flat a⟩], none⟩ = .ok q)
    (hb : toQuery term nested ⟨pieces ++ [⟨r, n, .flat b⟩], none⟩ = .ok q) :
    exists e, term a m = .ok e ∧ term b n = .ok e := by
  rcases exists_last_of_toQuery ha with ⟨e, he, hlast⟩
  rcases exists_last_of_toQuery hb with ⟨e', he', hlast'⟩
  rw [hlast] at hlast'
  cases hlast'
  exact ⟨e, he, he'⟩

end Outline

/-!
# Text behind the last part
-/

namespace Text

theorem noEnding_of_trimEnd {text : List Char} (h : NoEnding (trimEnd text)) :
    NoEnding text := by
  intro r hr
  rcases hr with ⟨front, rfl⟩
  rw [trimEnd_append_ending] at h
  exact h r (List.suffix_append _ _)

theorem inert_append_ending {blanks : List Char}
    (h : forall c, c ∈ blanks -> isBlank c = true) (r : Relation) :
    Inert (blanks ++ r.ending) := by
  intro c hc hmem
  rcases List.mem_append.mp hc with hc | hc
  · have hblank := h c hc
    simp only [List.mem_cons, List.not_mem_nil, or_false] at hmem
    rcases hmem with rfl | rfl | rfl | rfl | rfl <;> cases hblank
  · have hall : r.ending.all (fun c => c ∉ ['\\', '=', '<', '>', '@']) = true := by
      cases r <;> decide
    exact of_decide_eq_true (List.all_eq_true.mp hall c hc) hmem

end Text

theorem Part.term_pushAll_append_ending (text : List Char) (r : Relation) :
    (pushAll {} (text ++ r.ending)).term = Text.trimEnd text := by
  apply term_of_ending (r := r)
  rw [text_pushAll]
  exact Text.trimEnd_append_ending text r

theorem Flat.keyword (r : Relation) : Flat r.keyword.toList where
  head := by
    intro c hc
    cases r <;> (cases hc; rfl)
  brackets := by
    cases r <;> rfl
  word := by
    intro hany
    cases r <;> cases hany
  stop := Text.noStopWord_of_notMem r.space_notMem_keyword

namespace Level

variable {l : Level} {pieces : List Piece} {last : Reading}

theorem run_withText_of_ok (h : Reading.run l {} l.text = (pieces, .ok last))
    (text : List Char) :
    Reading.run { l with text := text } {} l.text = (pieces, .ok last) := by
  rcases Reading.run_withText l {} text l.text with ⟨hpieces, hresult⟩
  rw [h] at hpieces hresult
  exact Prod.ext hpieces (except_mapError_eq_ok_iff.mp hresult)

theorem ofLevel_append_flat (h : Reading.run l {} l.text = (pieces, .ok last))
    (hopen : last.openBrackets = 0) {tail : List Char}
    (hflat : Flat (last.part.text ++ tail)) (hne : last.part.text ++ tail ≠ []) :
    Outline.ofLevel { l with text := l.text ++ tail } =
      ⟨pieces ++ [last.piece
        (.flat (Part.pushAll {} (last.part.text ++ tail)).term)], none⟩ := by
  have hcoherent := Reading.coherent_of_run (congrArg Prod.snd h)
  rw [Outline.ofLevel_eq, Reading.outline_append,
    run_withText_of_ok h (l.text ++ tail)]
  show Outline.prepend pieces _ = _
  rw [hcoherent.outline_flat_end hopen hflat hne]
  rfl

theorem ofLevel_append_keyword (h : Reading.run l {} l.text = (pieces, .ok last))
    (hopen : last.openBrackets = 0) {k : Keyword}
    (hpart : last.part.text = k.word.toList) (r : Relation) :
    Outline.ofLevel { l with text := l.text ++ r.ending } =
      ⟨pieces ++ [(last.heed k).piece (.flat r.keyword.toList)], none⟩ := by
  have hcoherent := Reading.coherent_of_run (congrArg Prod.snd h)
  have hflat := hcoherent.flat hopen
  have hstage : (Reading.heed { last with stage := .gap } k).stage = .gap := by
    cases k <;> rfl
  have htrim : Text.trimEnd r.keyword.toList = r.keyword.toList := by
    cases r <;> rfl
  rw [Outline.ofLevel_eq, Reading.outline_append,
    run_withText_of_ok h (l.text ++ r.ending)]
  show Outline.prepend pieces _ = _
  rw [hcoherent.eq_holding hopen, ← Reading.outline_flat rfl hflat, hpart,
    Relation.ending, Reading.outline_keyword rfl rfl,
    Reading.outline_flat_end hstage (Flat.keyword r) (by cases r <;> decide) htrim
      (Text.noEnding_of_notMem r.space_notMem_keyword)]
  cases k <;> rfl

/-- The end of the text makes the last part the last piece. -/
theorem ofLevel_eq_of_part (h : Reading.run l {} l.text = (pieces, .ok last))
    (hopen : last.openBrackets = 0) (hne : last.part.text ≠ []) :
    Outline.ofLevel l =
      ⟨pieces ++ [last.piece (.flat (Part.pushAll {} last.part.text).term)],
        none⟩ := by
  have hcoherent := Reading.coherent_of_run (congrArg Prod.snd h)
  have hflat : Flat (last.part.text ++ []) := by
    rw [List.append_nil]
    exact hcoherent.flat hopen
  have houtline := ofLevel_append_flat h hopen hflat (by simp [hne])
  rw [List.append_nil, List.append_nil] at houtline
  exact houtline

/-!
# A relation behind the last part
-/

section Read

variable {settings : Settings} {q : Query}

theorem openBrackets_of_read (h : Reading.run l {} l.text = (pieces, .ok last))
    (hread : l.read settings = .ok q) : last.openBrackets = 0 := by
  rcases read_eq_ok_iff.mp hread with ⟨_, _, hfault, _⟩
  rw [Outline.ofLevel, h] at hfault
  rcases last with ⟨_ | _ | _ | _, negated, relation⟩
  · rfl
  · rfl
  · rfl
  · cases hfault

theorem toQuery_of_read {text : List Char} {o : Outline}
    (hread : Level.read settings { l with text := text } = .ok q)
    (h : Outline.ofLevel { l with text := text } = o) :
    o.toQuery (Fragment.read settings)
      (fun inner => (l.inner inner).read settings) = .ok q := by
  rw [← h, ← hread, read_eq]
  rfl

theorem read_append_ending (h : Reading.run l {} l.text = (pieces, .ok last))
    (hread : l.read settings = .ok q) (hne : last.part.text ≠ [])
    (hword : Keyword.ofWord? last.part.text = none)
    (hend : Text.NoEnding (Text.trimEnd last.part.text)) (r : Relation) :
    Level.read settings { l with text := l.text ++ r.ending } = .ok q := by
  have hopen := openBrackets_of_read h hread
  have hcoherent := Reading.coherent_of_run (congrArg Prod.snd h)
  have hflat := hcoherent.flat hopen
  have hlonger := hflat.append_ending hne (hflat.ofWord?_firstWord hword)
    (Text.noEnding_of_trimEnd hend) r
  have hterm : (Part.pushAll {} (last.part.text ++ r.ending)).term =
      (Part.pushAll {} last.part.text).term := by
    rw [Part.term_pushAll_append_ending, Part.term_of_no_ending]
    · rw [Part.text_pushAll]
      rfl
    · rw [Part.text_pushAll]
      exact hend
  rw [← hread, read_eq, read_eq,
    ofLevel_append_flat h hopen hlonger (by simp [hne]),
    ofLevel_eq_of_part h hopen hne, hterm]
  rfl

theorem read_append_ending_ne (h : Reading.run l {} l.text = (pieces, .ok last))
    (hread : l.read settings = .ok q) (hne : last.part.text ≠ [])
    (hword : Keyword.ofWord? last.part.text = none)
    (hend : Text.NoEnding last.part.text)
    (hending : ¬ Text.NoEnding (Text.trimEnd last.part.text)) (r : Relation) :
    Level.read settings { l with text := l.text ++ r.ending } ≠ .ok q := by
  intro happend
  have hopen := openBrackets_of_read h hread
  have hcoherent := Reading.coherent_of_run (congrArg Prod.snd h)
  have hflat := hcoherent.flat hopen
  have hlonger := hflat.append_ending hne (hflat.ofWord?_firstWord hword) hend r
  rcases Classical.not_forall.mp hending with ⟨s, hs⟩
  rcases Classical.not_not.mp hs with ⟨front, hfront⟩
  rcases Text.exists_blanks front with ⟨blanks, hblanks, hblank⟩
  have hterm : (Part.pushAll {} last.part.text).term = Text.trimEnd front := by
    apply Part.term_of_ending (r := s)
    rw [Part.text_pushAll]
    exact hfront.symm
  have hterm' : (Part.pushAll {} (last.part.text ++ r.ending)).term =
      Text.trimEnd front ++ (blanks ++ s.ending) := by
    rw [Part.term_pushAll_append_ending, ← hfront, ← List.append_assoc, ← hblanks]
  have hold := toQuery_of_read hread (ofLevel_eq_of_part h hopen hne)
  have hnew := toQuery_of_read happend
    (ofLevel_append_flat h hopen hlonger (by simp [hne]))
  rw [hterm] at hold
  rw [hterm'] at hnew
  rcases Outline.exists_read_of_toQuery hold hnew with ⟨e, he, he'⟩
  exact Fragment.read_append_ne (Text.inert_append_ending hblank s)
    (by simp [Relation.ending]) he he'

theorem read_keyword (settings : Settings) (k : Keyword) (negated : Bool) :
    Fragment.read settings k.word.toList negated =
      .ok (.freeText settings.fulltextFallback k.word negated) := by
  rcases k with _ | _ | _ <;> rfl

theorem read_append_ending_ne_of_not
    (h : Reading.run l {} l.text = (pieces, .ok last))
    (hread : l.read settings = .ok q)
    (hpart : last.part.text = Keyword.not.word.toList) (r : Relation) :
    Level.read settings { l with text := l.text ++ r.ending } ≠ .ok q := by
  intro happend
  have hopen := openBrackets_of_read h hread
  have hne : last.part.text ≠ [] := by
    rw [hpart]
    decide
  have hterm : (Part.pushAll {} last.part.text).term = Keyword.not.word.toList := by
    rw [hpart]
    rfl
  have hold := toQuery_of_read hread (ofLevel_eq_of_part h hopen hne)
  have hnew := toQuery_of_read happend (ofLevel_append_keyword h hopen hpart r)
  rw [hterm] at hold
  rcases Outline.exists_read_of_toQuery hold hnew with ⟨e, he, he'⟩
  rw [read_keyword] at he
  rw [show r.keyword = (Keyword.relation r).word from rfl, read_keyword] at he'
  cases he
  injection he' with he'
  have htext := Element.eq_of_freeText_eq he'
  revert htext
  cases r <;> decide

end Read

end Level

namespace Query

/-- The text that is held back at the end of a text: what stands behind the last
piece, and behind the reserved words and blanks that follow the piece. -/
def lastPart? (settings : Settings) (text : String) : Option (List Char) :=
  match Reading.run { text := text.toList, limit := settings.maxDepth } {}
    text.toList with
  | (_, .ok last) => some last.part.text
  | (_, .error _) => none

variable {settings : Settings}

theorem exists_run_of_lastPart? {text : String} {part : List Char}
    (h : lastPart? settings text = some part) :
    exists pieces last, Reading.run
        { text := text.toList, limit := settings.maxDepth } {} text.toList =
        (pieces, .ok last) ∧ last.part.text = part := by
  unfold lastPart? at h
  split at h
  next pieces last hrun =>
    cases h
    exact ⟨pieces, last, hrun, rfl⟩
  next => cases h

/-- The word of a relation behind the last part of a text changes nothing, unless
the part is the word `NOT` or ends with a relation already.  This is said of a part
that has something in it, is no relation itself, and does not end with one that a
space behind it would make a stop word. -/
theorem parse_append_relation_iff {text : String} {q : Query} {part : List Char}
    (h : parse settings text = .ok q) (hpart : lastPart? settings text = some part)
    (hne : part ≠ []) (hword : forall r : Relation, part ≠ r.keyword.toList)
    (hend : Text.NoEnding part) (r : Relation) :
    parse settings (text ++ " " ++ r.keyword) = .ok q <->
      part ≠ Keyword.not.word.toList ∧ Text.NoEnding (Text.trimEnd part) := by
  let l : Level := { text := text.toList, limit := settings.maxDepth }
  have htext : (text ++ " " ++ r.keyword).toList = l.text ++ r.ending := by
    rw [String.toList_append, String.toList_append, List.append_assoc]
    rfl
  rcases exists_run_of_lastPart? hpart with ⟨pieces, last, hrun, rfl⟩
  have hread : l.read settings = .ok q := parse_eq_ok_iff.mp h
  have hnone : last.part.text ≠ Keyword.not.word.toList ->
      Keyword.ofWord? last.part.text = none := by
    intro hnot
    cases hk : Keyword.ofWord? last.part.text with
    | none => rfl
    | some k =>
        rw [Keyword.ofWord?_eq_some_iff] at hk
        cases k with
        | not => exact absurd hk hnot
        | relation s => exact absurd hk (hword s)
  rw [parse_eq_ok_iff, htext]
  constructor
  · intro happend
    have hnot : last.part.text ≠ Keyword.not.word.toList := by
      intro hnot
      exact Level.read_append_ending_ne_of_not hrun hread hnot r happend
    refine ⟨hnot, ?_⟩
    apply Classical.byContradiction
    intro hending
    exact Level.read_append_ending_ne hrun hread hne (hnone hnot) hend hending r
      happend
  · rintro ⟨hnot, hending⟩
    exact Level.read_append_ending hrun hread hne (hnone hnot) hending r

theorem parse_append_relation_iff_behind_group :
    exists q, parse {} "(title=a) OR license=b\u00a0" = .ok q ∧
      lastPart? {} "(title=a) OR license=b\u00a0" =
        some "license=b\u00a0".toList ∧
      parse {} ("(title=a) OR license=b\u00a0" ++ " " ++ Relation.and.keyword) =
        .ok q := by
  have hparse : parse {} "(title=a) OR license=b\u00a0" = .ok
      (.cons (.group (.single (.term { address := .field .title, value := "a" }))
        false) [(.or, .term { address := .field .license, value := "b" })]) := rfl
  have hpart : lastPart? {} "(title=a) OR license=b\u00a0" =
      some "license=b\u00a0".toList := rfl
  have hword : forall r : Relation,
      "license=b\u00a0".toList ≠ r.keyword.toList := by
    intro r
    cases r <;> decide
  have hend : Text.NoEnding "license=b\u00a0".toList :=
    Text.noEnding_of_notMem (by decide)
  have htrim : Text.NoEnding (Text.trimEnd "license=b\u00a0".toList) :=
    Text.noEnding_of_notMem (by decide)
  refine ⟨_, hparse, hpart, ?_⟩
  exact (parse_append_relation_iff hparse hpart (by decide) hword hend .and).mpr
    ⟨by decide, htrim⟩

theorem parse_append_relation_ne :
    (exists q, parse {} "NOT" = .ok q ∧ q ≠ .nil ∧
      parse {} ("NOT" ++ " " ++ Relation.and.keyword) ≠ .ok q) ∧
      exists q, parse {} "title=a AND\t" = .ok q ∧ q ≠ .nil ∧
        parse {} ("title=a AND\t" ++ " " ++ Relation.or.keyword) ≠ .ok q := by
  have hword : parse {} ("NOT" ++ " " ++ Relation.and.keyword) =
      .ok (.single (.freeText true "AND" true)) := rfl
  have hvalue : parse {} ("title=a AND\t" ++ " " ++ Relation.or.keyword) =
      .ok (.single (.term { address := .field .title, value := "a AND" })) := rfl
  refine ⟨⟨.single (.freeText true "NOT" false), rfl, by decide, ?_⟩,
    ⟨.single (.term { address := .field .title, value := "a" }), rfl, by decide,
      ?_⟩⟩
  · rw [hword]
    decide
  · rw [hvalue]
    decide

end Query

end SearchQuery
