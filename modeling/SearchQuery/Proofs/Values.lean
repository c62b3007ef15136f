import SearchQuery.Proofs.Canonical
import SearchQuery.Proofs.Text.Bracket

/-!
# Values in a text

A value is written with escapes, and so it is only a value, whatever characters it
has.  The brackets that count in the text of a query are those around its groups.
And when the escapes are taken away again, every value stands in the text as it is.
-/

namespace SearchQuery

namespace Address

/-- The part of an address that may be any text: the index of a statement or a
label.  A field has none. -/
def label : Address -> List Char
  | field _ => []
  | statement index _ => index.toList
  | collection label => label.toList
  | technical label => label.toList

theorem notMem_chars_of_label {a : Address} {d : Char} (h : d ∉ a.label)
    (hpath : Split.isPath d = false) (hlead : d ∉ ['[', ']']) : d ∉ a.chars := by
  have hname : forall text : List Char, text.all Split.isPath = true ->
      d ∉ text := by
    intro text htext hmem
    rw [List.all_eq_true.mp htext d hmem] at hpath
    cases hpath
  have hword : forall c, Split.isName c = true -> d ≠ c := by
    intro c hc heq
    rw [heq, isPath_of_isName hc] at hpath
    cases hpath
  cases a with
  | field f =>
      intro hmem
      exact hword d (isName_of_mem_word hmem).1 rfl
  | statement index subfield =>
      rw [chars_statement, List.mem_append, not_or]
      refine ⟨hname _ (by decide), ?_⟩
      intro hmem
      rcases List.mem_append.mp hmem with hmem | hmem
      · exact h hmem
      cases subfield with
      | none => cases hmem
      | some f =>
          rcases List.mem_cons.mp hmem with rfl | hmem
          · cases hpath
          · exact hword d (isName_of_mem_subword hmem).1 rfl
  | collection label =>
      rw [chars_collection, List.mem_append, collectionPath, List.mem_map, not_or]
      refine ⟨hname _ (by decide), ?_⟩
      rintro ⟨c, hc, rfl⟩
      split at hpath
      · cases hpath
      next hspace =>
        rw [if_neg hspace] at h
        exact h hc
  | technical label =>
      rw [chars_technical, List.mem_append, List.mem_append, not_or, not_or]
      rw [List.mem_cons, not_or] at hlead
      have hopen : Shape.technical.lead = "technical".toList ++ ['['] := rfl
      rw [hopen, List.mem_append, not_or, List.mem_singleton]
      exact ⟨⟨hname _ (by decide), hlead.1⟩, h, hlead.2⟩

end Address

/-!
# Brackets
-/

theorem Term.nested_body_of_label {t : Term} (ho : '(' ∉ t.address.label)
    (hc : ')' ∉ t.address.label) : Nested t.body 0 := by
  have htoken : '(' ∉ t.operator.token.toList ∧ ')' ∉ t.operator.token.toList := by
    cases t.operator <;> decide
  have hhead : Text.brackets false t.head = [] := by
    rw [Term.head]
    apply Text.brackets_of_notMem
    · rw [List.mem_append, not_or]
      exact ⟨Address.notMem_chars_of_label ho rfl (by decide), htoken.1⟩
    · rw [List.mem_append, not_or]
      exact ⟨Address.notMem_chars_of_label hc rfl (by decide), htoken.2⟩
  apply Nested.of_brackets_eq_nil
  · rw [Term.body, Text.escapedAfter_append, t.escapedAfter_head,
      Text.escapedAfter_escape]
  · rw [Term.body, Text.brackets_append, hhead, t.escapedAfter_head,
      Text.brackets_escape]
    rfl

namespace Element

def brackets : Element -> List Bracket :=
  fold (fun _ => []) (fun inner _ =>
    .opening :: inner.elements.flatten ++ [.closing])

@[simp] theorem brackets_term (t : Term) : (term t).brackets = [] := by
  rw [brackets, fold_term]

@[simp] theorem brackets_group (items : Chain Element) (negated : Bool) :
    (group items negated).brackets =
      .opening :: items.elements.flatMap brackets ++ [.closing] := by
  rw [brackets, fold_group, Chain.elements_map, List.flatMap_def]

end Element

namespace Query

def brackets (q : Query) : List Bracket :=
  q.elements.flatMap Element.brackets

end Query

theorem Nested.brackets_eq_nil {text : List Char} (h : Nested text 0) :
    Text.brackets false text = [] := by
  have hnests := h.nestsWithin (Nat.le_refl 0)
  cases hbrackets : Text.brackets false text with
  | nil => rfl
  | cons b rest =>
      rw [hbrackets] at hnests
      cases b with
      | opening => exact absurd hnests.1 (Nat.not_succ_le_zero 0)
      | closing => exact hnests.elim

theorem Nested.brackets_append {a b : List Char} {n : Nat} (h : Nested a n) :
    Text.brackets false (a ++ b) =
      Text.brackets false a ++ Text.brackets false b := by
  rw [Text.brackets_append, h.escaped]

namespace Query

theorem brackets_run {e : Element} {rest : List (Relation × Element)}
    (h : Full (fun t => Nested t.body 0) (.cons e rest))
    (hbrackets : forall a, a ∈ Chain.elements (.cons e rest) ->
      Text.brackets false a.chars = a.brackets) :
    Text.brackets false (e.run rest) = brackets (.cons e rest) := by
  have he := Element.nested_chars (h e List.mem_cons_self)
  have hfirst := hbrackets e List.mem_cons_self
  induction rest generalizing e with
  | nil =>
      rw [Element.run_nil, hfirst]
      exact (List.append_nil _).symm
  | cons l rest ih =>
      rcases l with ⟨r, e'⟩
      have hfull : Full (fun t => Nested t.body 0) (.cons e' rest) :=
        fun a ha => h a (List.mem_cons_of_mem e ha)
      have hrest := ih hfull
        (fun a ha => hbrackets a (List.mem_cons_of_mem e ha))
        (Element.nested_chars (hfull e' List.mem_cons_self))
        (hbrackets e' (List.mem_cons_of_mem e List.mem_cons_self))
      rw [Element.run_cons, he.brackets_append, r.nested_stopWord.brackets_append,
        r.nested_stopWord.brackets_eq_nil, hfirst, hrest]
      rfl

end Query

theorem Element.brackets_chars {e : Element}
    (h : e.Full (fun t => Nested t.body 0)) :
    Text.brackets false e.chars = e.brackets := by
  induction h with
  | @term t ht =>
      rw [chars_term, (nested_negation t.negated).brackets_append,
        (nested_negation t.negated).brackets_eq_nil, ht.brackets_eq_nil,
        brackets_term]
      rfl
  | @group items negated hne hfull ih =>
      have hnested := Query.nested_joined_of_body hfull
      have hinner : Text.brackets false (Query.joined items) =
          Query.brackets items := by
        cases items with
        | nil => exact absurd rfl hne
        | cons e rest =>
            rw [Query.joined_cons hfull]
            exact Query.brackets_run hfull ih
      rw [chars_group_of_full (.group hne hfull),
        (nested_negation negated).brackets_append,
        (nested_negation negated).brackets_eq_nil, brackets_group]
      show _ :: Text.brackets false (Query.joined items ++ [')']) = _
      rw [hnested.brackets_append, hinner]
      rfl

namespace Query

theorem brackets_joined {q : Query} (h : q.Full (fun t => Nested t.body 0)) :
    Text.brackets false q.joined = q.brackets := by
  cases q with
  | nil => rfl
  | cons e rest =>
      rw [joined_cons h]
      exact brackets_run h (fun a ha => Element.brackets_chars (h a ha))

/-- The brackets that count in the text of a query are those of the groups that are
written, whatever the values are.  So they are closed in order, and as deep as these
groups are nested.  Labels must not have brackets. -/
theorem brackets_text {q : Query} (h : forall t, t ∈ q.leaves ->
      '(' ∉ t.address.label ∧ ')' ∉ t.address.label) :
    Text.brackets false q.text.toList = q.prune.brackets ∧
      (forall p, p <+: Text.brackets false q.text.toList ->
        p.count .closing ≤ p.count .opening ∧
          Bracket.openAfter 0 p ≤ q.prune.depth) ∧
      (Text.brackets false q.text.toList).count .opening =
        (Text.brackets false q.text.toList).count .closing ∧
      exists p, p <+: Text.brackets false q.text.toList ∧
        Bracket.openAfter 0 p = q.prune.depth := by
  have hfull : q.prune.Full (fun t => Nested t.body 0) := by
    apply q.full_prune
    intro t ht
    exact Term.nested_body_of_label (h t ht).1 (h t ht).2
  have hnested := nested_joined_of_body hfull
  have htext : Text.brackets false q.text.toList =
      Text.brackets false q.prune.joined := by
    rw [← text_prune, text, String.toList_ofList, brackets_chars]
  have hnests := hnested.nestsWithin (Nat.le_refl _)
  have hbelow : forall p, p <+: Text.brackets false q.prune.joined ->
      p.count .closing ≤ p.count .opening ∧
        Bracket.openAfter 0 p ≤ q.prune.depth := by
    intro p hp
    have hparts := Bracket.prefix_of_nestsWithin hnests (Nat.zero_le _) hp
    rw [Nat.zero_add] at hparts
    exact hparts
  have hcount := Bracket.count_of_nestsWithin hnests
  rw [Nat.zero_add] at hcount
  rw [htext]
  refine ⟨brackets_joined hfull, hbelow, hcount.symm, ?_⟩
  -- If the brackets were nowhere that deep, they would nest within less.
  by_contra hnone
  have hlt : forall p, p <+: Text.brackets false q.prune.joined ->
      Bracket.openAfter 0 p < q.prune.depth := by
    intro p hp
    apply Nat.lt_of_le_of_ne (hbelow p hp).2
    intro heq
    exact hnone ⟨p, hp, heq⟩
  have hpos : 0 < q.prune.depth := hlt [] List.nil_prefix
  have hless := hnested.le_of_nestsWithin
    (Bracket.nestsWithin_of_openAfter_le hnests
      (fun p hp => Nat.le_sub_one_of_lt (hlt p hp)))
  omega

theorem brackets_text_nested :
    text (.cons (.group (.single (.term
          { address := .technical "a\\", value := "\\)((" })) true)
        [(.or, .group (.single (.group .nil false)) false)]) =
      "NOT (technical[a\\]=\\\\\\)\\(\\()" ∧
      prune (.cons (.group (.single (.term
          { address := .technical "a\\", value := "\\)((" })) true)
        [(.or, .group (.single (.group .nil false)) false)]) =
      .single (.group (.single (.term
        { address := .technical "a\\", value := "\\)((" })) true) ∧
      Text.brackets false "NOT (technical[a\\]=\\\\\\)\\(\\()".toList =
        [.opening, .closing] ∧
      exists p, p <+: [Bracket.opening, .closing] ∧ Bracket.openAfter 0 p = 1 := by
  have h : forall t, t ∈ leaves (.cons (.group (.single (.term
        { address := .technical "a\\", value := "\\)((" })) true)
      [(.or, .group (.single (.group .nil false)) false)]) ->
        '(' ∉ t.address.label ∧ ')' ∉ t.address.label := by
    intro t ht
    rw [List.mem_singleton.mp ht]
    decide
  rcases brackets_text h with ⟨hbrackets, _, _, hdepth⟩
  refine ⟨rfl, rfl, hbrackets, ?_⟩
  rw [hbrackets] at hdepth
  exact hdepth

end Query

/-!
# Texts without their escapes
-/

namespace Text

/-- A text spells another one when it is the same with a backslash in front of some
of the special characters, and of every backslash. -/
inductive Spells : List Char -> List Char -> Prop where
  | nil : Spells [] []
  | plain {c : Char} {text raw : List Char} : c ≠ '\\' -> Spells text raw ->
      Spells (c :: text) (c :: raw)
  | escaped {c : Char} {text raw : List Char} : isSpecial c = true ->
      Spells text raw -> Spells ('\\' :: c :: text) (c :: raw)

theorem spells_escape (text : List Char) : Spells (escape text) text := by
  induction text with
  | nil => exact Spells.nil
  | cons c rest ih =>
      cases h : isSpecial c with
      | true =>
          rw [escape_cons_of_special h]
          exact Spells.escaped h ih
      | false =>
          rw [escape_cons_of_not_special h]
          exact Spells.plain (ne_backslash_of_not_special h) ih

theorem spells_of_notMem {text : List Char} (h : '\\' ∉ text) :
    Spells text text := by
  induction text with
  | nil => exact Spells.nil
  | cons c rest ih =>
      rw [List.mem_cons, not_or] at h
      exact Spells.plain (Ne.symm h.1) (ih h.2)

namespace Spells

variable {text raw text' raw' : List Char}

theorem append (h : Spells text raw) (h' : Spells text' raw') :
    Spells (text ++ text') (raw ++ raw') := by
  induction h with
  | nil => exact h'
  | plain hc _ ih => exact plain hc ih
  | escaped hc _ ih => exact escaped hc ih

theorem unescape_eq (h : Spells text raw) : unescape text = raw := by
  induction h with
  | nil => rfl
  | plain hc _ ih => rw [unescape_cons_of_ne hc, ih]
  | escaped _ _ ih => rw [unescape, ih]

theorem eq_nil_iff (h : Spells text raw) : text = [] <-> raw = [] := by
  cases h with
  | nil => exact Iff.rfl
  | plain => simp
  | escaped => simp

end Spells

theorem trimEnd_cons_of_blank {c : Char} (h : isBlank c = true)
    (text : List Char) :
    trimEnd (c :: text) = if trimEnd text = [] then [] else c :: trimEnd text := by
  split
  next hnil =>
    rcases exists_blanks text with ⟨blanks, htext, hblanks⟩
    rw [hnil, List.nil_append] at htext
    have hall : forall d, d ∈ c :: blanks -> isBlank d = true := by
      intro d hd
      rcases List.mem_cons.mp hd with rfl | hd
      · exact h
      · exact hblanks d hd
    rw [htext]
    exact trimEnd_append_blanks hall []
  next hne => exact trimEnd_append hne [c]

theorem trimEnd_cons_of_not_blank {c : Char} (h : isBlank c = false)
    (text : List Char) : trimEnd (c :: text) = c :: trimEnd text :=
  trimEnd_append_of_not_blank h [] text

theorem not_blank_of_isSpecial {c : Char} (h : isSpecial c = true) :
    isBlank c = false := by
  simp only [isSpecial, Bool.or_eq_true, beq_iff_eq] at h
  rcases h with ((((rfl | rfl) | rfl) | rfl) | rfl) | rfl <;> rfl

theorem Spells.trimEnd {text raw : List Char} (h : Spells text raw) :
    Spells (Text.trimEnd text) (Text.trimEnd raw) := by
  induction h with
  | nil => exact nil
  | @plain c text raw hc _ ih =>
      cases hblank : isBlank c with
      | true =>
          rw [trimEnd_cons_of_blank hblank, trimEnd_cons_of_blank hblank]
          by_cases hnil : Text.trimEnd text = []
          · rw [if_pos hnil, if_pos (ih.eq_nil_iff.mp hnil)]
            exact nil
          · rw [if_neg hnil, if_neg (fun hraw => hnil (ih.eq_nil_iff.mpr hraw))]
            exact plain hc ih
      | false =>
          rw [trimEnd_cons_of_not_blank hblank, trimEnd_cons_of_not_blank hblank]
          exact plain hc ih
  | @escaped c text raw hc _ ih =>
      have hblank := not_blank_of_isSpecial hc
      rw [trimEnd_cons_of_not_blank (show isBlank '\\' = false from rfl),
        trimEnd_cons_of_not_blank hblank, trimEnd_cons_of_not_blank hblank]
      exact escaped hc ih

end Text

namespace Chain

variable {α : Type} {f g : α -> List Char}

theorem joinChars_map (c : Chain α) (f : α -> List Char) :
    (c.map f).joinChars =
      match c.filterMap (fun a => if f a = [] then none else some a) with
      | nil => []
      | cons a rest => f a ++ rest.flatMap (fun l =>
          ' ' :: l.1.keyword.toList ++ ' ' :: f l.2) := by
  have hkeep : (c.map f).filterMap (fun t => if t = [] then none else some t) =
      (c.filterMap (fun a => if f a = [] then none else some a)).map f := by
    rw [filterMap_map, map_filterMap]
    congr 1
    funext a
    split <;> rfl
  rw [joinChars, hkeep]
  cases c.filterMap (fun a => if f a = [] then none else some a) with
  | nil => rfl
  | cons a rest => simp [map, List.flatMap_map]

theorem spells_joinChars {c : Chain α}
    (h : forall a, a ∈ c.elements -> Text.Spells (f a) (g a)) :
    Text.Spells (c.map f).joinChars (c.map g).joinChars := by
  have hkeep : c.filterMap (fun a => if f a = [] then none else some a) =
      c.filterMap (fun a => if g a = [] then none else some a) := by
    apply filterMap_congr
    intro a ha
    simp only [(h a ha).eq_nil_iff]
  have hkept : forall a, a ∈ (c.filterMap
      (fun a => if g a = [] then none else some a)).elements ->
        Text.Spells (f a) (g a) := by
    intro a ha
    rw [elements_filterMap, List.mem_filterMap] at ha
    rcases ha with ⟨b, hb, hab⟩
    split at hab
    · cases hab
    · cases hab
      exact h a hb
  rw [joinChars_map, joinChars_map, hkeep]
  cases hchain : c.filterMap (fun a => if g a = [] then none else some a) with
  | nil => exact Text.Spells.nil
  | cons first rest =>
      rw [hchain] at hkept
      apply (hkept first List.mem_cons_self).append
      have hrest : forall l, l ∈ rest -> Text.Spells (f l.2) (g l.2) := by
        intro l hl
        exact hkept l.2 (List.mem_cons_of_mem first (List.mem_map_of_mem hl))
      clear hchain hkept
      induction rest with
      | nil => exact Text.Spells.nil
      | cons l rest ih =>
          rw [List.flatMap_cons, List.flatMap_cons]
          refine Text.Spells.append ?_
            (ih (fun l hl => hrest l (List.mem_cons_of_mem _ hl)))
          have hjoint : '\\' ∉ ' ' :: l.1.keyword.toList ++ [' '] := by
            cases l.1 <;> decide
          have hl := (Text.spells_of_notMem hjoint).append
            (hrest l List.mem_cons_self)
          simpa using hl

end Chain

theorem Term.spells_chars {t : Term} (h : '\\' ∉ t.address.label) :
    Text.Spells (t.charsWith Text.escape) (t.charsWith id) := by
  have hfront : '\\' ∉ negation t.negated ++ t.address.chars ++
      t.operator.token.toList := by
    rw [List.mem_append, List.mem_append, not_or, not_or]
    refine ⟨⟨?_, Address.notMem_chars_of_label h rfl (by decide)⟩, ?_⟩
    · cases t.negated <;> decide
    · cases t.operator <;> decide
  exact (Text.spells_of_notMem hfront).append (Text.spells_escape _)

theorem Element.spells_chars {e : Element}
    (h : forall t, t ∈ e.leaves -> '\\' ∉ t.address.label) :
    Text.Spells (e.charsWith Text.escape) (e.charsWith id) := by
  induction e using Element.induction with
  | term t =>
      rw [charsWith_term, charsWith_term]
      exact Term.spells_chars (h t (by simp))
  | group items negated ih =>
      have hitems : Text.Spells (items.map (charsWith Text.escape)).joinChars
          (items.map (charsWith id)).joinChars := by
        apply Chain.spells_joinChars
        intro e he
        apply ih e he
        intro t ht
        apply h
        rw [leaves_group, List.mem_flatMap]
        exact ⟨e, he, ht⟩
      rw [charsWith_group, charsWith_group]
      have hnil := hitems.eq_nil_iff
      have hfront : '\\' ∉ negation negated ++ ['('] := by
        cases negated <;> decide
      have hgroup := ((Text.spells_of_notMem hfront).append hitems).append
        (Text.spells_of_notMem (show '\\' ∉ [')'] by decide))
      split
      next hempty =>
        rw [hnil.mp hempty]
        exact Text.Spells.nil
      next hne =>
        split
        next hempty => exact absurd (hnil.mpr hempty) hne
        next => simpa using hgroup

namespace Query

/-- The pretty text of a query is its text with every value as it is, if no label
has a backslash. -/
theorem pretty_eq {q : Query}
    (h : forall t, t ∈ q.leaves -> '\\' ∉ t.address.label) :
    q.pretty = String.ofList (q.charsWith id) := by
  have hjoined : Text.Spells (q.map (Element.charsWith Text.escape)).joinChars
      (q.map (Element.charsWith id)).joinChars := by
    apply Chain.spells_joinChars
    intro e he
    apply Element.spells_chars
    intro t ht
    exact h t (List.mem_flatMap.mpr ⟨e, he, ht⟩)
  exact congrArg String.ofList hjoined.trimEnd.unescape_eq

theorem pretty_eq_backslash :
    pretty (.cons (.group (.single (.term
          { address := .collection "a b", value := "(\\(" })) true)
        [(.or, .term { address := .field .title, value := "\\ " })]) =
      "NOT (collection.md.a_b=(\\() OR title=\\" := by
  have h : forall t, t ∈ leaves (.cons (.group (.single (.term
        { address := .collection "a b", value := "(\\(" })) true)
      [(.or, .term { address := .field .title, value := "\\ " })]) ->
        '\\' ∉ t.address.label := by
    intro t ht
    rcases List.mem_cons.mp ht with rfl | ht
    · decide
    · rw [List.mem_singleton.mp ht]
      decide
  rw [pretty_eq h]
  rfl

end Query

end SearchQuery
