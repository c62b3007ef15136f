import SearchQuery.Proofs.Level
import SearchQuery.Proofs.RoundTrip
import SearchQuery.Proofs.Term.Fragment

/-!
# Canonical texts

The text of a query that was read is canonical when it is read as that query
again.  That is so exactly when the limit allows the depth of the query and all
of its terms are legible: a term that is not legible is cut, trimmed or split in
another place.
-/

namespace SearchQuery

namespace Reading

variable {l : Level} {r : Reading} {t : Term}

/-- The first stop word behind the head of a term cuts its value there. -/
theorem outline_cut (hr : r.stage = .gap) (ha : t.address.Legible)
    {front : List Char} {s : Relation}
    (hbrackets : Text.brackets false front = [])
    (hstop : Text.NoStopWord (front ++ s.ending)) (rest : List Char) :
    r.outline l (t.head ++ (front ++ (s.stopWord ++ rest))) =
      (Reading.outline l { relation := s } rest).cons
        (r.piece (.flat (t.head ++ Text.trimEnd front))) := by
  have hnone : Text.brackets false (front ++ s.ending) = [] := by
    rw [Text.brackets_append_eq_nil_iff]
    refine ⟨hbrackets, ?_⟩
    apply Text.brackets_of_notMem
    · cases s <;> decide
    · cases s <;> decide
  have hflat := Term.flat_head_append ha hnone hstop
  rw [← List.append_assoc] at hflat
  have hsplit : t.head ++ (front ++ (s.stopWord ++ rest)) =
      (t.head ++ front ++ s.ending) ++ ' ' :: rest := by
    simp [Relation.stopWord]
  rw [hsplit, outline_flat hr hflat, outline_of_emit step_stopWord,
    t.trimEnd_head_append]

theorem exists_outline_end (hr : r.stage = .gap) (ha : t.address.Legible)
    {x : List Char} (hbrackets : Text.brackets false x = [])
    (hstop : Text.NoStopWord x) :
    exists p, r.outline l (t.head ++ x) =
        ⟨[r.piece (.flat (t.head ++ p))], none⟩ ∧
      p <+: x ∧ (p = x -> Text.trimEnd x = x ∧ Text.NoEnding x) := by
  have hflat := Term.flat_head_append ha hbrackets hstop
  have hne : t.head ++ x ≠ [] := by
    intro hnil
    exact t.head_ne_nil (List.append_eq_nil_iff.mp hnil).1
  have houtline := outline_flat (l := l) hr hflat []
  rw [List.append_nil, outline_nil, finish_holding hne] at houtline
  have htext : Text.trimEnd (Part.pushAll {} (t.head ++ x)).text =
      t.head ++ Text.trimEnd x := by
    rw [Part.text_pushAll, Part.text_empty, List.nil_append,
      t.trimEnd_head_append]
  rw [houtline]
  by_cases hend : Text.NoEnding (Text.trimEnd x)
  · refine ⟨Text.trimEnd x, ?_, Text.trimEnd_isPrefix x, ?_⟩
    · rw [Part.term_of_no_ending, htext]
      rw [htext]
      exact (Term.noEnding_head_append_iff t).mpr hend
    · intro htrim
      rw [htrim] at hend
      exact ⟨htrim, hend⟩
  · rcases Classical.not_forall.mp hend with ⟨s, hs⟩
    rcases Classical.not_not.mp hs with ⟨front, hfront⟩
    have hended : Text.trimEnd (Part.pushAll {} (t.head ++ x)).text =
        (t.head ++ front) ++ s.ending := by
      rw [htext, ← hfront, List.append_assoc]
    have hpart : front ++ s.ending <+: x := by
      rw [hfront]
      exact Text.trimEnd_isPrefix x
    refine ⟨Text.trimEnd front, ?_, ?_, ?_⟩
    · rw [Part.term_of_ending hended, t.trimEnd_head_append]
    · apply (Text.trimEnd_isPrefix front).trans
      exact (List.prefix_append front _).trans hpart
    · intro heq
      have hfrontlen := (Text.trimEnd_isPrefix front).length_le
      have hlen := hpart.length_le
      rw [heq] at hfrontlen
      rw [List.length_append, Relation.ending, List.length_cons] at hlen
      omega

theorem exists_outline_head (hr : r.stage = .gap) (ha : t.address.Legible)
    {x tail : List Char} (hbrackets : Text.brackets false x = [])
    (htail : tail = [] ∨ exists s rest, tail = Relation.stopWord s ++ rest) :
    exists p o, r.outline l (t.head ++ (x ++ tail)) =
        Outline.cons (r.piece (.flat (t.head ++ p))) o ∧
      p <+: x ∧
      (p = x -> Text.NoStopWord x ∧ Text.trimEnd x = x ∧ Text.NoEnding x) := by
  -- A text that is cut in front of a space and a word is longer than what is left.
  have hcut : forall (front rest : List Char) (s : Relation),
      x = front ++ (s.ending ++ rest) ->
        Text.trimEnd front <+: x ∧ Text.trimEnd front ≠ x := by
    intro front rest s heq
    rcases heq with rfl
    have hpart := Text.trimEnd_isPrefix front
    refine ⟨hpart.trans (List.prefix_append _ _), ?_⟩
    intro heq
    have hlen := hpart.length_le
    rw [heq] at hlen
    simp only [List.length_append, Relation.ending, List.length_cons] at hlen
    omega
  by_cases hstop : Text.NoStopWord x
  · rcases htail with rfl | ⟨s, rest, rfl⟩
    · rcases exists_outline_end (l := l) hr ha hbrackets hstop with
        ⟨p, houtline, hpart, hp⟩
      rw [List.append_nil]
      refine ⟨p, ⟨[], none⟩, houtline, hpart, ?_⟩
      intro heq
      exact ⟨hstop, hp heq⟩
    · by_cases hend : Text.NoEnding x
      · refine ⟨_, _, outline_cut hr ha hbrackets (hstop.append_ending hend s)
          rest, Text.trimEnd_isPrefix x, ?_⟩
        intro htrim
        exact ⟨hstop, htrim, hend⟩
      · rcases Classical.not_forall.mp hend with ⟨s', hs⟩
        rcases Classical.not_not.mp hs with ⟨front, rfl⟩
        have hfront := (Text.brackets_append_eq_nil_iff.mp hbrackets).1
        have hsplit : front ++ s'.ending ++ (s.stopWord ++ rest) =
            front ++ (s'.stopWord ++ (s.keyword.toList ++ ' ' :: rest)) := by
          simp [Relation.stopWord, Relation.ending]
        rw [hsplit, outline_cut hr ha hfront hstop]
        rcases hcut front [] s' (by simp) with ⟨hpart, hne⟩
        exact ⟨_, _, rfl, hpart, fun heq => absurd heq hne⟩
  · rcases Text.exists_first_stopWord hstop with ⟨front, s, rest, hx, hfirst⟩
    have hfront : Text.brackets false front = [] := by
      rw [hx] at hbrackets
      exact (Text.brackets_append_eq_nil_iff.mp hbrackets).1
    have hsplit : x ++ tail = front ++ (s.stopWord ++ (rest ++ tail)) := by
      simp [hx]
    rw [hsplit, outline_cut hr ha hfront hfirst]
    rcases hcut front (' ' :: rest) s (by simp [hx, Relation.stopWord]) with
      ⟨hpart, hne⟩
    exact ⟨_, _, rfl, hpart, fun heq => absurd heq hne⟩

end Reading

/-!
# Trimmed texts
-/

namespace Text

def Trimmed (text x : List Char) : Prop :=
  x = text ∨ x = trimEnd text

theorem Trimmed.exists_eq_append {a b x : List Char} (h : trimEnd b ≠ [])
    (hx : Trimmed (a ++ b) x) : exists y, x = a ++ y ∧ Trimmed b y := by
  rcases hx with rfl | rfl
  · exact ⟨b, rfl, Or.inl rfl⟩
  · exact ⟨trimEnd b, trimEnd_append h a, Or.inr rfl⟩

theorem Trimmed.isPrefix {text x : List Char} (h : Trimmed text x) :
    x <+: text := by
  rcases h with rfl | rfl
  · exact List.prefix_rfl
  · exact trimEnd_isPrefix _

theorem trimEnd_cons_ne_nil {c : Char} (h : isBlank c = false)
    (rest : List Char) : trimEnd (c :: rest) ≠ [] := by
  rw [← List.nil_append (c :: rest), trimEnd_append_of_not_blank h]
  simp

end Text

namespace Element

theorem trimEnd_run_ne_nil {P : Term -> Prop} {e : Element} (h : e.Full P)
    (rest : List (Relation × Element)) : Text.trimEnd (e.run rest) ≠ [] := by
  have hcons : exists c text, e.chars = c :: text ∧
      Text.isBlank c = false := by
    cases h with
    | @term t _ =>
        rw [chars_term]
        cases t.negated with
        | true => exact ⟨'N', _, rfl, rfl⟩
        | false =>
            rcases Address.exists_chars_eq_cons t.address with
              ⟨c, text, hchars, hblank, _⟩
            rw [Term.body, Term.head, hchars]
            exact ⟨c, _, rfl, hblank⟩
    | @group items negated hne hfull =>
        rw [chars_group_of_full (.group hne hfull)]
        cases negated with
        | true => exact ⟨'N', _, rfl, rfl⟩
        | false => exact ⟨'(', _, rfl, rfl⟩
  rcases hcons with ⟨c, text, hchars, hblank⟩
  rw [run, hchars]
  exact Text.trimEnd_cons_ne_nil hblank _

theorem exists_of_trimmed_run {P : Term -> Prop} {e e' : Element}
    {r : Relation} {rest : List (Relation × Element)} (h : e'.Full P)
    {x : List Char} (hx : Text.Trimmed (e.run ((r, e') :: rest)) x) :
    exists y, x = e.chars ++ (r.stopWord ++ y) ∧
      Text.Trimmed (e'.run rest) y := by
  have hne := trimEnd_run_ne_nil h rest
  rw [run_cons] at hx
  have hjoint : Text.trimEnd (r.stopWord ++ e'.run rest) ≠ [] := by
    rw [Text.trimEnd_append hne]
    simp [hne]
  rcases hx.exists_eq_append hjoint with ⟨y, rfl, hy⟩
  rcases hy.exists_eq_append hne with ⟨z, rfl, hz⟩
  exact ⟨z, rfl, hz⟩

theorem exists_of_trimmed_term {t : Term} {x : List Char}
    (hx : Text.Trimmed (term t).chars x) :
    exists y, x = negation t.negated ++ (t.head ++ y) ∧
      Text.Trimmed (Text.escape t.value.toList) y := by
  have hne : Text.trimEnd t.body ≠ [] := by
    rw [Term.body, t.trimEnd_head_append]
    simp [t.head_ne_nil]
  rw [chars_term] at hx
  rcases hx.exists_eq_append hne with ⟨y, rfl, hy⟩
  rcases hy with rfl | rfl
  · exact ⟨_, rfl, Or.inl rfl⟩
  · refine ⟨_, ?_, Or.inr rfl⟩
    rw [Term.body, t.trimEnd_head_append]

theorem eq_of_trimmed_group {P : Term -> Prop} {items : Chain Element}
    {negated : Bool} (h : (group items negated).Full P) {x : List Char}
    (hx : Text.Trimmed (group items negated).chars x) :
    x = (group items negated).chars := by
  rcases hx with rfl | rfl
  · rfl
  · rw [chars_group_of_full h, ← List.append_assoc]
    exact Text.trimEnd_concat_of_not_blank rfl _

end Element

/-!
# Necessity
-/

section Necessity

variable {settings : Settings} {l : Level} {s : Relation}
  {nested : List Char -> Except Fault Query} {js : List (Relation × Element)}

theorem exists_of_joints_term {t : Term} {x tail : List Char}
    (hs : settings.fulltextFallback = true) (ha : t.address.Legible)
    (hx : Text.Trimmed (Text.escape t.value.toList) x)
    (htail : tail = [] ∨ exists s rest, tail = Relation.stopWord s ++ rest)
    (h : Piece.joints (Fragment.read settings) nested
      (Reading.outline l { relation := s }
        (negation t.negated ++ (t.head ++ (x ++ tail)))).pieces = .ok js) :
    exists e rest, js = (s, e) :: rest ∧ (e = .term t -> t.Legible) := by
  have hpart := hx.isPrefix
  have hbrackets : Text.brackets false x = [] := by
    have hescape := Text.brackets_escape t.value.toList
    rcases hpart with ⟨blanks, hblanks⟩
    rw [← hblanks] at hescape
    exact (Text.brackets_append_eq_nil_iff.mp hescape).1
  rw [Reading.outline_negation] at h
  rcases Reading.exists_outline_head (l := l)
      (r := { relation := s, negated := t.negated }) rfl ha hbrackets htail with
    ⟨p, o, houtline, hp, hwhole⟩
  rw [houtline] at h
  rcases Piece.joints_cons_eq_ok_iff.mp h with ⟨e?, rest, he, _, rfl⟩
  rcases Piece.element?_flat.mp he with ⟨e, hread, rfl⟩
  refine ⟨e, rest, rfl, ?_⟩
  intro heq
  rcases heq with rfl
  have helement := Fragment.read_eq_ok_iff.mp hread
  rcases Term.eq_escape_of_element hs ha.named (hp.trans hpart) helement rfl with
    ⟨hescape, hne, htechnical⟩
  -- The head with less than the value behind it is never read as the term.
  have hxp : p = x := by
    apply hp.eq_of_length_le
    rw [hescape]
    exact hpart.length_le
  rcases hwhole hxp with ⟨hstop, htrim, hend⟩
  rw [← hxp, hescape] at hstop htrim hend
  constructor
  · exact ha
  · exact hne
  · intro c hc
    rw [← Text.getLast?_escape] at hc
    exact Text.trimEnd_eq_self_iff.mp htrim c hc
  · exact Text.noStopWord_escape_iff.mp hstop
  · exact Text.noEnding_escape_iff.mp hend
  · exact htechnical

theorem exists_of_joints_group {items : Chain Element} {negated : Bool}
    (hfull : (Element.group items negated).Full (fun t => t.address.Legible))
    (hle : l.depth + (Element.group items negated).depth ≤ l.limit)
    {tail : List Char}
    (h : Piece.joints (Fragment.read settings) nested
      (Reading.outline l { relation := s }
        ((Element.group items negated).chars ++ tail)).pieces = .ok js) :
    exists q rest, nested (Query.joined items) = .ok q ∧
      Piece.joints (Fragment.read settings) nested
        (Reading.outline l { relation := s } tail).pieces = .ok rest ∧
      (q ≠ .nil -> js = (s, .group q negated) :: rest) := by
  rw [Reading.outline_group_chars hfull hle] at h
  rcases Piece.joints_cons_eq_ok_iff.mp h with ⟨e?, rest, he, hrest, rfl⟩
  rcases Piece.element?_bracketed.mp he with ⟨q, hq, rfl⟩
  refine ⟨q, rest, hq, hrest, ?_⟩
  intro hne
  cases q with
  | nil => exact absurd rfl hne
  | cons first rest => rfl

/-- What a group is promised about its inside, read on its own: it is not read as
nothing, and as it was only if the group is legible. -/
def Element.InsideSettled (nested : List Char -> Except Fault Query)
    (e : Element) : Prop :=
  forall items negated, e = group items negated ->
    forall q, nested (Query.joined items) = .ok q ->
      q ≠ .nil ∧ (q = items -> e.Full Term.Legible)

theorem exists_of_joints_element {e : Element} {x tail : List Char}
    (hs : settings.fulltextFallback = true)
    (he : e.Full (fun t => t.address.Legible))
    (hle : l.depth + e.depth ≤ l.limit) (hinside : e.InsideSettled nested)
    (hx : Text.Trimmed e.chars x)
    (htail : tail = [] ∨ exists s rest, tail = Relation.stopWord s ++ rest)
    (h : Piece.joints (Fragment.read settings) nested
      (Reading.outline l { relation := s } (x ++ tail)).pieces = .ok js) :
    exists e' rest, js = (s, e') :: rest ∧
      (e' = e -> e.Full Term.Legible ∧
        forall r y, tail = Relation.stopWord r ++ y ->
          Piece.joints (Fragment.read settings) nested
            (Reading.outline l { relation := r } y).pieces = .ok rest) := by
  cases e with
  | term t =>
      have ha : t.address.Legible := he.of_mem_leaves (by simp)
      rcases Element.exists_of_trimmed_term hx with ⟨y, hy, hvalue⟩
      have hterm := h
      rw [hy, List.append_assoc, List.append_assoc] at hterm
      rcases exists_of_joints_term hs ha hvalue htail hterm with
        ⟨e', rest, rfl, hlegible⟩
      refine ⟨e', rest, rfl, ?_⟩
      intro heq
      have hfull := Element.Full.term (hlegible heq)
      refine ⟨hfull, ?_⟩
      intro r y heq
      rcases heq with rfl
      -- A legible term has no blanks that trimming could have taken off.
      have hwhole : x = (Element.term t).chars := by
        rcases hx with rfl | rfl
        · rfl
        · exact Element.trimEnd_chars hfull
      rw [hwhole, Reading.outline_chars_stopWord hfull hle] at h
      rcases Piece.joints_cons_eq_ok_iff.mp h with ⟨e?, js', he?, hjs, hcons⟩
      rcases Piece.element?_flat.mp he? with ⟨e₁, _, rfl⟩
      injection hcons with _ hcons
      rw [hcons]
      exact hjs
  | group items negated =>
      rw [Element.eq_of_trimmed_group he hx] at h
      rcases exists_of_joints_group he hle h with ⟨q, rest, hq, hrest, hjs⟩
      rcases hinside items negated rfl q hq with ⟨hne, hlegible⟩
      refine ⟨.group q negated, rest, hjs hne, ?_⟩
      intro heq
      injection heq with heq _
      refine ⟨hlegible heq, ?_⟩
      intro r y heq
      rcases heq with rfl
      rw [Reading.outline_joint] at hrest
      exact hrest

theorem full_of_joints (hs : settings.fulltextFallback = true)
    {e : Element} {rest : List (Relation × Element)}
    (hfull : Query.Full (fun t => t.address.Legible) (.cons e rest))
    (hle : l.depth + Query.depth (.cons e rest) ≤ l.limit)
    (hinside : forall a, a ∈ Chain.elements (.cons e rest) ->
      a.InsideSettled nested)
    {text : List Char} (htext : Text.Trimmed (e.run rest) text)
    (h : Piece.joints (Fragment.read settings) nested
      (Reading.outline l { relation := s } text).pieces = .ok js) :
    js ≠ [] ∧ (js.map Prod.snd = Chain.elements (.cons e rest) ->
      Query.Full Term.Legible (.cons e rest)) := by
  have he := hfull e List.mem_cons_self
  have hfirst := hinside e List.mem_cons_self
  induction rest generalizing e s text js with
  | nil =>
      rw [Query.depth_cons] at hle
      rw [Element.run_nil] at htext
      rw [← List.append_nil text] at h
      rcases exists_of_joints_element hs he (by omega) hfirst htext
        (Or.inl rfl) h with ⟨e', js', rfl, hlegible⟩
      refine ⟨List.cons_ne_nil _ _, ?_⟩
      intro heq a ha
      rw [List.map_cons, Chain.elements] at heq
      injection heq with heq _
      rw [List.mem_singleton.mp ha]
      exact (hlegible heq).1
  | cons x rest ih =>
      rcases x with ⟨r, e'⟩
      have hfull' : Query.Full (fun t => t.address.Legible)
          (.cons e' rest) := by
        intro a ha
        exact hfull a (List.mem_cons_of_mem e ha)
      have hinside' : forall a, a ∈ Chain.elements (.cons e' rest) ->
          a.InsideSettled nested := by
        intro a ha
        exact hinside a (List.mem_cons_of_mem e ha)
      rw [Query.depth_cons_cons] at hle
      rcases Element.exists_of_trimmed_run (hfull' e' List.mem_cons_self)
        htext with ⟨y, rfl, hy⟩
      rcases exists_of_joints_element hs he (by omega) hfirst (Or.inl rfl)
        (Or.inr ⟨r, y, rfl⟩) h with ⟨e₀, js', rfl, hlegible⟩
      refine ⟨List.cons_ne_nil _ _, ?_⟩
      intro heq
      rw [List.map_cons, Chain.elements] at heq
      injection heq with hhead hrest
      rcases hlegible hhead with ⟨hefull, hbehind⟩
      rcases ih hfull' (by omega) hinside' hy (hbehind r y rfl)
        (hfull' e' List.mem_cons_self) (hinside' e' List.mem_cons_self) with
        ⟨_, hrestfull⟩
      intro a ha
      rcases List.mem_cons.mp ha with rfl | ha
      · exact hefull
      · exact hrestfull hrest a ha

theorem full_of_read_of (hs : settings.fulltextFallback = true)
    {e : Element} {rest : List (Relation × Element)}
    (hfull : Query.Full (fun t => t.address.Legible) (.cons e rest))
    (hle : l.depth + Query.depth (.cons e rest) ≤ l.limit)
    (hinside : forall a, a ∈ Chain.elements (.cons e rest) ->
      a.InsideSettled (fun inner => (l.inner inner).read settings))
    (htext : Text.Trimmed (e.run rest) l.text) {q : Query}
    (h : l.read settings = .ok q) :
    q ≠ .nil ∧ (q = .cons e rest ->
      Query.Full Term.Legible (.cons e rest)) := by
  rcases Level.read_eq_ok_iff.mp h with ⟨js, hjs, _, rfl⟩
  rcases full_of_joints (s := .and) hs hfull hle hinside htext hjs with
    ⟨hne, hlegible⟩
  constructor
  · cases js with
    | nil => exact absurd rfl hne
    | cons =>
        intro hnil
        cases hnil
  · intro heq
    apply hlegible
    rw [← Chain.elements_ofJoints, heq]

theorem Element.insideSettled (hs : settings.fulltextFallback = true)
    {e : Element} (h : e.Full (fun t => t.address.Legible))
    (hle : l.depth + e.depth ≤ l.limit) :
    e.InsideSettled (fun inner => (l.inner inner).read settings) := by
  induction h generalizing l with
  | term =>
      intro items negated heq
      cases heq
  | @group items negated hne hfull ih =>
      intro items' negated' heq q hq
      injection heq with heq
      subst heq
      cases items with
      | nil => exact absurd rfl hne
      | cons e rest =>
          rw [depth_group] at hle
          have hroom : l.depth + 1 + Query.depth (.cons e rest) ≤ l.limit := by
            omega
          have hinside : forall a, a ∈ Chain.elements (.cons e rest) ->
              a.InsideSettled (fun inner =>
                ((l.inner (Query.joined (.cons e rest))).inner inner).read
                  settings) := by
            intro a ha
            exact ih a ha
              (Nat.le_trans
                (Nat.add_le_add_left (Query.depth_le_of_mem ha) _) hroom)
          rcases full_of_read_of hs hfull hroom hinside
            (Or.inl (Query.joined_cons hfull)) hq with ⟨hread, hlegible⟩
          refine ⟨hread, ?_⟩
          intro heq
          exact Full.group hne (hlegible heq)

theorem Query.full_of_read (hs : settings.fulltextFallback = true)
    {q : Query} (h : q.Full (fun t => t.address.Legible))
    (hle : l.depth + q.depth ≤ l.limit)
    (htext : Text.Trimmed q.joined l.text)
    (hread : l.read settings = .ok q) : q.Full Term.Legible := by
  cases q with
  | nil =>
      intro e he
      cases he
  | cons e rest =>
      rw [joined_cons h] at htext
      have hinside : forall a, a ∈ Chain.elements (.cons e rest) ->
          a.InsideSettled (fun inner => (l.inner inner).read settings) := by
        intro a ha
        have hdepth := depth_le_of_mem ha
        exact Element.insideSettled hs (h a ha) (by omega)
      exact (full_of_read_of hs h hle hinside htext hread).2 rfl

end Necessity

namespace Query

theorem full_of_level {settings : Settings} {l : Level} {q : Query}
    (h : l.read settings = .ok q) :
    q.Full (fun t => t.address.Legible) := by
  apply Level.forall_of_read (P := Element.Full (fun t => t.address.Legible))
    _ _ h
  · intro text negated e hflat hread
    exact Fragment.full_of_read hflat hread
  · intro items negated hne hitems
    exact Element.Full.group hne hitems

theorem brackets_chars (q : Query) :
    Text.brackets false q.chars = Text.brackets false q.joined := by
  rcases Text.exists_blanks q.joined with ⟨blanks, hjoined, hblanks⟩
  have hnone : forall d, Text.isBlank d = false -> d ∉ blanks := by
    intro d hd hmem
    rw [hblanks d hmem] at hd
    cases hd
  have hbrackets : Text.brackets (Text.escapedAfter false q.chars) blanks =
      [] :=
    Text.brackets_of_notMem (hnone '(' rfl) (hnone ')' rfl) _
  rw [← chars_eq] at hjoined
  rw [hjoined, Text.brackets_append, hbrackets, List.append_nil]

/-- A query that was read is read from its text again exactly when the limit
allows its depth and all of its terms are legible. -/
theorem parse_text_iff_of_parse {text : String} {q : Query}
    (h : parse {} text = .ok q) :
    parse {} q.text = .ok q <->
      q.depth ≤ 64 ∧ forall t, t ∈ q.leaves -> t.Legible := by
  have hfull := full_of_level (parse_eq_ok_iff.mp h)
  rw [parse_eq_ok_iff, Query.text, String.toList_ofList]
  constructor
  · intro hread
    rcases Level.read_eq_ok_iff.mp hread with ⟨_, _, hfault, _⟩
    have hnests := Outline.nestsWithin_of_ofLevel hfault
    have hdepth : q.depth ≤ 64 := by
      apply (nested_joined hfull).le_of_nestsWithin
      rw [← brackets_chars]
      exact hnests
    refine ⟨hdepth, ?_⟩
    have hlegible : q.Full Term.Legible := by
      apply full_of_read rfl hfull _ (Or.inr rfl) hread
      rw [Nat.zero_add]
      exact hdepth
    intro t ht
    rcases List.mem_flatMap.mp ht with ⟨e, he, ht⟩
    exact (hlegible e he).of_mem_leaves ht
  · intro hparts
    rcases hparts with ⟨hdepth, hlegible⟩
    exact read_chars rfl (hfull.of_leaves hlegible) hdepth

theorem parse_text_iff_of_parse_title :
    parse {} "title=x" =
        .ok (.single (.term { address := .field .title, value := "x" })) ∧
      (parse {} (text (.single
          (.term { address := .field .title, value := "x" }))) =
        .ok (.single (.term { address := .field .title, value := "x" })) <->
      depth (.single (.term { address := .field .title, value := "x" })) ≤ 64 ∧
        forall t, t ∈ leaves (.single
          (.term { address := .field .title, value := "x" })) -> t.Legible) := by
  have h : parse {} "title=x" =
      .ok (.single (.term { address := .field .title, value := "x" })) := rfl
  exact ⟨h, parse_text_iff_of_parse h⟩

theorem parse_text_ne_of_at_sign :
    parse {} "technical[a]==@b" =
        .ok (.single (.term { address := .technical "a", value := "@b" })) ∧
      parse {} (text (.single
          (.term { address := .technical "a", value := "@b" }))) ≠
        .ok (.single (.term { address := .technical "a", value := "@b" })) := by
  refine ⟨rfl, ?_⟩
  intro h
  have hread : parse {} (text (.single
      (.term { address := .technical "a", value := "@b" }))) =
        .ok (.single (.term { address := .technical "a", value := "b" })) := rfl
  rw [hread] at h
  exact absurd (Except.ok.inj h) (by decide)

end Query

end SearchQuery
