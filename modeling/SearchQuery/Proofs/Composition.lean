import SearchQuery.Proofs.Element.Scan
import SearchQuery.Proofs.Limit

/-!
# Composition of texts

A text that is put together from segments, each a run of reserved words and a
body, is read segment by segment: the words of a run give the negation of the
body and set the relation in force, which is kept until another word sets it.
-/

namespace SearchQuery

/-- A piece of text with blanks and reserved words in front, each word with the
blanks behind it. -/
structure Segment where
  lead : List Char := []
  run : List (Keyword × List Char) := []
  body : Body
  deriving DecidableEq, Repr

namespace Body

def text : Body -> List Char
  | flat text => text
  | bracketed inner => '(' :: inner ++ [')']

def Closed : Body -> Prop
  | flat text =>
      text ≠ [] ∧
        (forall c, text.head? = some c -> Text.isBlank c = false) ∧
        (forall c, text.getLast? = some c -> Text.isBlank c = false) ∧
        Text.brackets false text = [] ∧
        Text.NoStopWord text ∧ Text.NoEnding text ∧
        Keyword.ofWord? (Text.firstWord text) = none
  | bracketed inner => Text.escapedAfter false inner = false

theorem closed_of_no_blank {text : List Char} (hne : text ≠ [])
    (hblank : text.any Text.isBlank = false) (hopening : '(' ∉ text)
    (hclosing : ')' ∉ text) (hword : Keyword.ofWord? text = none) :
    (flat text).Closed := by
  have hall : forall c, c ∈ text -> Text.isBlank c = false := by
    intro c hc
    simpa using List.any_eq_false.mp hblank c hc
  have hspace : ' ' ∉ text := by
    intro hmem
    cases hall ' ' hmem
  refine ⟨hne, ?_, ?_, Text.brackets_of_notMem hopening hclosing false,
    Text.noStopWord_of_notMem hspace, Text.noEnding_of_notMem hspace, ?_⟩
  · intro c hc
    exact hall c (List.mem_of_mem_head? hc)
  · intro c hc
    exact hall c (List.mem_of_getLast? hc)
  · rw [Text.firstWord_of_no_blank hblank]
    exact hword

end Body

namespace Segment

def words (s : Segment) : List Char :=
  s.run.flatMap (fun w => w.1.word.toList ++ w.2)

def text (s : Segment) : List Char :=
  s.lead ++ (s.words ++ s.body.text)

def textAll (segments : List Segment) : List Char :=
  segments.flatMap text

def negated (s : Segment) : Bool :=
  s.run.any (fun w => w.1 == .not)

def relation (s : Segment) (r : Relation) : Relation :=
  s.run.foldl (fun r w =>
    match w.1 with
    | .not => r
    | .relation r' => r') r

def read (settings : Settings) (depth : Nat) (s : Segment) :
    Except Fault (Option Element) :=
  match s.body with
  | .flat text => (Fragment.read settings text s.negated).map some
  | .bracketed inner =>
      (Query.read { settings with maxDepth := depth } inner).map (fun q =>
        if q.isEmpty then none else some (.group q s.negated))

/-- The links of segments that were read, behind `links`, with `r` in force. -/
def linksFrom (r : Relation) (links : List (Option Relation × Element)) :
    List (Segment × Option Element) -> List (Option Relation × Element)
  | [] => links
  | (s, none) :: rest => linksFrom (s.relation r) links rest
  | (s, some e) :: rest =>
      linksFrom (s.relation r)
        (links ++ [(if links.isEmpty then none else some (s.relation r), e)])
        rest

structure Valid (s : Segment) : Prop where
  lead : forall c, c ∈ s.lead -> Text.isBlank c = true
  blanks : forall w, w ∈ s.run ->
    w.2 ≠ [] ∧ forall c, c ∈ w.2 -> Text.isBlank c = true
  closed : s.body.Closed

theorem valid_of_closed {body : Body} (h : body.Closed) :
    Valid { body := body } := by
  refine ⟨?_, ?_, h⟩
  · intro c hc
    cases hc
  · intro w hw
    cases hw

/-- Behind a flat term a segment begins with the word of a relation, and that has
a single space on both sides. -/
def Joins (s next : Segment) : Prop :=
  forall text, s.body = .flat text ->
    next.lead = [' '] ∧ exists r blanks rest,
      next.run = (.relation r, ' ' :: blanks) :: rest

def Joined : List Segment -> Prop
  | [] => True
  | s :: rest =>
      s.Valid ∧ (forall next, rest.head? = some next -> s.Joins next) ∧
        Joined rest

def piece (s : Segment) (r : Relation) : Piece where
  relation := s.relation r
  negated := s.negated
  body := s.body

def pieces (r : Relation) : List Segment -> List Piece
  | [] => []
  | s :: rest => s.piece r :: pieces (s.relation r) rest

end Segment

namespace Reading

variable {l : Level}

def heedAll (r : Reading) (run : List (Keyword × List Char)) : Reading :=
  run.foldl (fun r w => r.heed w.1) r

theorem heedAll_eq {r : Reading} (hr : r.stage = .gap) (s : Segment) :
    r.heedAll s.run =
      { relation := s.relation r.relation
        negated := r.negated || s.negated } := by
  rcases s with ⟨lead, run, body⟩
  rw [heedAll, Segment.relation, Segment.negated]
  show run.foldl _ r = { relation := run.foldl _ r.relation, negated := _ }
  induction run generalizing r with
  | nil =>
      rcases r with ⟨stage, negated, relation⟩
      cases hr
      simp
  | cons w run ih =>
      rcases w with ⟨k, blanks⟩
      have hheed : (r.heed k).stage = .gap := by
        cases k <;> rfl
      rw [List.foldl_cons, ih hheed]
      cases k with
      | not => simp [heed]
      | relation r' =>
          have hne : (Keyword.relation r' == Keyword.not) = false := rfl
          simp [heed, hne]

theorem outline_words {r : Reading} (hr : r.stage = .gap)
    {run : List (Keyword × List Char)}
    (h : forall w, w ∈ run ->
      w.2 ≠ [] ∧ forall c, c ∈ w.2 -> Text.isBlank c = true)
    (rest : List Char) :
    r.outline l (run.flatMap (fun w => w.1.word.toList ++ w.2) ++ rest) =
      (r.heedAll run).outline l rest := by
  induction run generalizing r with
  | nil => rfl
  | cons w run ih =>
      rcases w with ⟨k, blanks⟩
      rcases h (k, blanks) List.mem_cons_self with ⟨hne, hblanks⟩
      have hheed : (r.heed k).stage = .gap := by
        cases k <;> rfl
      cases blanks with
      | nil => exact absurd rfl hne
      | cons b blanks =>
          have hb := hblanks b List.mem_cons_self
          have hsplit : ((k, b :: blanks) :: run).flatMap
                (fun w => w.1.word.toList ++ w.2) ++ rest =
              k.word.toList ++ b :: (blanks ++
                (run.flatMap (fun w => w.1.word.toList ++ w.2) ++ rest)) := by
            simp
          have hrun := ih hheed
            (fun w hw => h w (List.mem_cons_of_mem (k, b :: blanks) hw))
          rw [hsplit, outline_keyword hr hb, outline_blanks hheed, hrun]
          · rfl
          · intro c hc
            exact hblanks c (List.mem_cons_of_mem b hc)

theorem outline_body {r : Reading} (hr : r.stage = .gap) {body : Body}
    (hclosed : body.Closed) {limit : Nat}
    (hnests : forall inner, body = .bracketed inner ->
      Bracket.NestsWithin limit 0 (Text.brackets false inner))
    (hl : l.depth + 1 + limit ≤ l.limit) {rest : List Char}
    (hrest : forall text, body = .flat text -> rest = [] ∨
      exists (s : Relation) (tail : List Char), rest = s.stopWord ++ tail) :
    r.outline l (body.text ++ rest) =
      (Reading.outline l { relation := r.relation } rest).cons
        (r.piece body) := by
  cases body with
  | bracketed inner =>
      have houtline := outline_group hr (hnests inner rfl) hl hclosed rest
      have hsplit : (Body.bracketed inner).text ++ rest =
          '(' :: inner ++ ')' :: rest := by
        simp [Body.text]
      rw [hsplit, houtline]
  | flat text =>
      rcases hclosed with ⟨hne, hhead, hlast, hbrackets, hstop, hend, hword⟩
      have htrim := Text.trimEnd_eq_self_iff.mpr hlast
      have hflat : Flat text :=
        ⟨hhead, hbrackets, fun _ => hword, hstop⟩
      rcases hrest text rfl with rfl | ⟨s, tail, rfl⟩
      · rw [List.append_nil]
        exact outline_flat_end hr hflat hne htrim hend
      · have houtline := outline_flat_stopWord (l := l) hr hflat hne hword
          htrim hend s tail
        rw [List.append_assoc] at houtline
        rw [outline_joint]
        exact houtline

end Reading

namespace Segment

theorem textAll_eq_stopWord {s next : Segment} {rest : List Segment}
    (h : s.Joins next) {text : List Char} (hbody : s.body = .flat text) :
    exists (r : Relation) (tail : List Char),
      textAll (next :: rest) = r.stopWord ++ tail := by
  rcases h text hbody with ⟨hlead, r, blanks, run, hrun⟩
  refine ⟨r, ?_⟩
  simp [textAll, Segment.text, words, hlead, hrun, Relation.stopWord,
    Relation.ending, Keyword.word]

theorem outline_textAll {l : Level} {limit : Nat}
    (hl : l.depth + 1 + limit ≤ l.limit) {segments : List Segment}
    (h : Joined segments)
    (hnests : forall s, s ∈ segments -> forall inner,
      s.body = .bracketed inner ->
        Bracket.NestsWithin limit 0 (Text.brackets false inner))
    (r : Relation) :
    Reading.outline l { relation := r } (textAll segments) =
      ⟨pieces r segments, none⟩ := by
  induction segments generalizing r with
  | nil => rfl
  | cons s rest ih =>
      rcases h with ⟨hvalid, hjoins, hrest⟩
      have hbehind := ih hrest
        (fun s' hs' => hnests s' (List.mem_cons_of_mem s hs'))
        (s.relation r)
      have htail : forall text, s.body = .flat text ->
          textAll rest = [] ∨ exists (r : Relation) (tail : List Char),
            textAll rest = r.stopWord ++ tail := by
        intro text hbody
        cases rest with
        | nil => exact Or.inl rfl
        | cons next rest =>
            exact Or.inr (textAll_eq_stopWord (hjoins next rfl) hbody)
      have hsplit : textAll (s :: rest) =
          s.lead ++ (s.words ++ (s.body.text ++ textAll rest)) := by
        simp [textAll, text]
      rw [hsplit, Reading.outline_blanks rfl hvalid.lead, words,
        Reading.outline_words rfl hvalid.blanks,
        Reading.heedAll_eq rfl s,
        Reading.outline_body rfl hvalid.closed
          (hnests s List.mem_cons_self) hl htail, hbehind]
      rfl

def jointsFrom (r : Relation) :
    List (Segment × Option Element) -> List (Relation × Element)
  | [] => []
  | (s, none) :: rest => jointsFrom (s.relation r) rest
  | (s, some e) :: rest =>
      (s.relation r, e) :: jointsFrom (s.relation r) rest

theorem linksFrom_links (r : Relation) (js : List (Relation × Element))
    (parts : List (Segment × Option Element)) :
    linksFrom r (Chain.ofJoints js).links parts =
      (Chain.ofJoints (js ++ jointsFrom r parts)).links := by
  have hpush : forall js r' (e : Element),
      (Chain.ofJoints js).links ++
        [(if (Chain.ofJoints js).links.isEmpty then none else some r', e)] =
          (Chain.ofJoints (js ++ [(r', e)])).links := by
    intro js r' e
    cases js with
    | nil => rfl
    | cons x js => simp [Chain.ofJoints, Chain.links]
  induction parts generalizing r js with
  | nil => rw [jointsFrom, List.append_nil, linksFrom]
  | cons part parts ih =>
      rcases part with ⟨s, _ | e⟩
      · rw [linksFrom, jointsFrom, ih]
      · rw [linksFrom, hpush, ih, jointsFrom, List.append_assoc,
          List.singleton_append]

section Read

variable {settings : Settings} {depth : Nat}

theorem element?_piece (s : Segment) (r : Relation) :
    (s.piece r).element? (Fragment.read settings)
        (fun inner => Query.read { settings with maxDepth := depth } inner) =
      s.read settings depth := by
  rcases s with ⟨lead, run, text | inner⟩
  · rfl
  · rfl

theorem joints_pieces {parts : List (Segment × Option Element)}
    (h : forall p, p ∈ parts -> p.1.read settings depth = .ok p.2)
    (r : Relation) :
    Piece.joints (Fragment.read settings)
        (fun inner => Query.read { settings with maxDepth := depth } inner)
        (pieces r (parts.map Prod.fst)) = .ok (jointsFrom r parts) := by
  induction parts generalizing r with
  | nil => rfl
  | cons part parts ih =>
      rcases part with ⟨s, e?⟩
      have hs := h (s, e?) List.mem_cons_self
      have hparts := ih
        (fun p hp => h p (List.mem_cons_of_mem (s, e?) hp)) (s.relation r)
      apply Piece.joints_cons_eq_ok_iff.mpr
      refine ⟨e?, _, (element?_piece s r).trans hs, hparts, ?_⟩
      cases e? with
      | none => rfl
      | some e => rfl

theorem nestsWithin_of_read {s : Segment} {e? : Option Element}
    (h : s.read settings depth = .ok e?) {inner : List Char}
    (hbody : s.body = .bracketed inner) :
    Bracket.NestsWithin depth 0 (Text.brackets false inner) := by
  rcases s with ⟨lead, run, body⟩
  cases hbody
  rcases except_map_eq_ok_iff.mp h with ⟨q, hq, _⟩
  rcases Level.read_eq_ok_iff.mp hq with ⟨_, _, hfault, _⟩
  exact Outline.nestsWithin_of_ofLevel hfault

end Read

end Segment

namespace Query

/-- A text of joined segments is read, and its links are those of the
segments. -/
theorem exists_parse_textAll (settings : Settings) (depth : Nat)
    {parts : List (Segment × Option Element)}
    (hjoined : Segment.Joined (parts.map Prod.fst))
    (hread : forall p, p ∈ parts -> p.1.read settings depth = .ok p.2) :
    exists q, parse { settings with maxDepth := depth + 1 }
        (String.ofList (Segment.textAll (parts.map Prod.fst))) = .ok q ∧
      q.links = Segment.linksFrom .and [] parts := by
  have hnests : forall s, s ∈ parts.map Prod.fst -> forall inner,
      s.body = .bracketed inner ->
        Bracket.NestsWithin depth 0 (Text.brackets false inner) := by
    intro s hs inner hbody
    rcases List.mem_map.mp hs with ⟨p, hp, rfl⟩
    exact Segment.nestsWithin_of_read (hread p hp) hbody
  have houtline : Outline.ofLevel
      { text := Segment.textAll (parts.map Prod.fst), limit := depth + 1 } =
        ⟨Segment.pieces .and (parts.map Prod.fst), none⟩ := by
    have hroom : 0 + 1 + depth ≤ depth + 1 := by omega
    exact Segment.outline_textAll hroom hjoined hnests .and
  have hjoints := Segment.joints_pieces hread .and
  refine ⟨Chain.ofJoints (Segment.jointsFrom .and parts), ?_, ?_⟩
  · rw [parse_eq_ok_iff, String.toList_ofList]
    apply Level.read_eq_ok_iff.mpr
    rw [houtline]
    refine ⟨_, ?_, rfl, rfl⟩
    apply Piece.joints_eq_ok_of _ hjoints
    intro p _ e? he
    rcases p with ⟨r, negated, body⟩
    cases body with
    | flat text => exact he
    | bracketed inner =>
        rcases Piece.element?_bracketed.mp he with ⟨q, hq, rfl⟩
        apply Piece.element?_bracketed.mpr
        refine ⟨q, ?_, rfl⟩
        -- One level further inside there is room for as many groups.
        rw [Level.read_congr (show
          Fragment.read { settings with maxDepth := depth + 1 } =
            Fragment.read { settings with maxDepth := depth } from rfl)]
        refine Level.read_eq_ok_of_admits ?_ ?_ hq
        · intro n hn
          have hle : 0 + n ≤ depth := of_decide_eq_true hn
          show decide (0 + 1 + n ≤ depth + 1) = true
          exact decide_eq_true (by omega)
        · rfl
  · exact (Segment.linksFrom_links .and [] parts).symm

theorem exists_parse_textAll_dropped :
    exists q, parse { maxDepth := 2 } "title=a OR NOT ( )title=b" = .ok q ∧
      q.links =
        [(none, .term { address := .field .title, value := "a" }),
          (some .or, .term { address := .field .title, value := "b" })] := by
  have hclosed : forall c, c = 'a' ∨ c = 'b' ->
      (Body.flat ("title=".toList ++ [c])).Closed := by
    intro c hc
    apply Body.closed_of_no_blank
    all_goals rcases hc with rfl | rfl <;> decide
  have hspace : forall c, c ∈ [' '] -> Text.isBlank c = true := by
    intro c hc
    rw [List.mem_singleton.mp hc]
    rfl
  have hblanks : forall w, w ∈ [(Keyword.relation .or, [' ']), (.not, [' '])] ->
      w.2 ≠ [] ∧ forall c, c ∈ w.2 -> Text.isBlank c = true := by
    intro w hw
    rcases List.mem_cons.mp hw with rfl | hw
    · exact ⟨List.cons_ne_nil _ _, hspace⟩
    · rw [List.mem_singleton.mp hw]
      exact ⟨List.cons_ne_nil _ _, hspace⟩
  have hfirst : Segment.read {} 1 ⟨[], [], .flat "title=a".toList⟩ =
      .ok (some (.term { address := .field .title, value := "a" })) := rfl
  have hdropped : Segment.read {} 1
      ⟨[' '], [(.relation .or, [' ']), (.not, [' '])], .bracketed [' ']⟩ =
        .ok none := rfl
  have hlast : Segment.read {} 1 ⟨[], [], .flat "title=b".toList⟩ =
      .ok (some (.term { address := .field .title, value := "b" })) := rfl
  refine @exists_parse_textAll {} 1
    [(⟨[], [], .flat "title=a".toList⟩,
        some (.term { address := .field .title, value := "a" })),
      (⟨[' '], [(.relation .or, [' ']), (.not, [' '])], .bracketed [' ']⟩,
        none),
      (⟨[], [], .flat "title=b".toList⟩,
        some (.term { address := .field .title, value := "b" }))] ?_ ?_
  · refine ⟨Segment.valid_of_closed (hclosed 'a' (Or.inl rfl)), ?_,
      ⟨hspace, hblanks, rfl⟩, ?_,
      Segment.valid_of_closed (hclosed 'b' (Or.inr rfl)), ?_, trivial⟩
    · intro next hnext text _
      cases hnext
      exact ⟨rfl, .or, [], [(.not, [' '])], rfl⟩
    · intro next hnext text hbody
      cases hbody
    · intro next hnext
      cases hnext
  · intro p hp
    rcases List.mem_cons.mp hp with rfl | hp
    · exact hfirst
    rcases List.mem_cons.mp hp with rfl | hp
    · exact hdropped
    rw [List.mem_singleton.mp hp]
    exact hlast

end Query

end SearchQuery
