import SearchQuery.Element.Text
import SearchQuery.Proofs.Outline.Flat

/-!
# Legible terms

A term is legible when its text is read as that term again.  This depends on its
address and, apart from that, on its value: what follows the operator must not be
empty, must not be trimmed and must not be cut at the word of a relation, and
behind a technical label it must not lend a character to the label or to the
operator.

The text of a term is a head, which ends with the operator, and the escaped
value.  With a legible address the head is flat, and so is every text that
continues it without brackets and stop words.
-/

namespace SearchQuery

namespace Split

theorem ne_of_isAlphanum {c d : Char} (hc : c.isAlphanum = true)
    (hd : d.isAlphanum = false) : c ≠ d := by
  intro heq
  rw [heq, hd] at hc
  cases hc

theorem isPath_and_ne_dot_iff {c : Char} :
    isPath c = true ∧ c ≠ '.' <->
      c.isAlphanum = true ∨ c = ':' ∨ c = '_' ∨ c = '-' := by
  have hdot : c.isAlphanum = true -> c ≠ '.' := by
    intro hc
    exact ne_of_isAlphanum hc rfl
  grind [isPath, isName]

theorem isPath_and_ne_score_iff {c : Char} :
    (isPath c = true ∧ c ≠ '_') ∨ c = ' ' <->
      c.isAlphanum = true ∨ c = ':' ∨ c = '.' ∨ c = '-' ∨ c = ' ' := by
  have hscore : c.isAlphanum = true -> c ≠ '_' := by
    intro hc
    exact ne_of_isAlphanum hc rfl
  grind [isPath, isName]

end Split

namespace Address

/-- An address that its text stands for.  The index of a statement and the label
of a collection are made of the characters of a path, the former without dots
and the latter with spaces in the place of underscores. -/
def Legible : Address -> Prop
  | field _ => True
  | statement index _ =>
      index.toList ≠ [] ∧
        forall c, c ∈ index.toList -> Split.isPath c = true ∧ c ≠ '.'
  | collection label =>
      label.toList ≠ [] ∧
        forall c, c ∈ label.toList ->
          (Split.isPath c = true ∧ c ≠ '_') ∨ c = ' '
  | technical label =>
      label.toList ≠ [] ∧ Text.brackets false label.toList = [] ∧
        Text.NoStopWord label.toList

/-- An address whose names are made of the characters that they may have. -/
def WellNamed : Address -> Prop
  | field _ => True
  | statement index _ =>
      index ≠ "" ∧ forall c, c ∈ index.toList ->
        c.isAlphanum = true ∨ c = ':' ∨ c = '_' ∨ c = '-'
  | collection label =>
      label ≠ "" ∧ forall c, c ∈ label.toList ->
        c.isAlphanum = true ∨ c = ':' ∨ c = '.' ∨ c = '-' ∨ c = ' '
  | technical label =>
      label ≠ "" ∧ Text.brackets false label.toList = [] ∧
        Text.NoStopWord label.toList

theorem legible_iff_wellNamed {a : Address} : a.Legible <-> a.WellNamed := by
  cases a with
  | field f => exact Iff.rfl
  | statement index subfield =>
      simp only [Legible, WellNamed, Split.isPath_and_ne_dot_iff, Ne,
        String.toList_eq_nil_iff]
  | collection label =>
      simp only [Legible, WellNamed, Split.isPath_and_ne_score_iff, Ne,
        String.toList_eq_nil_iff]
  | technical label =>
      simp only [Legible, WellNamed, Ne, String.toList_eq_nil_iff]

/-- An address whose name can be told in a text that holds one term and nothing
else.  There a technical label may hold brackets and stop words as well. -/
def Named : Address -> Prop
  | technical label => label.toList ≠ []
  | a => a.Legible

theorem Legible.named {a : Address} (h : a.Legible) : a.Named := by
  cases a with
  | technical label => exact h.1
  | _ => exact h

theorem Named.legible {a : Address} (h : a.Named)
    (hne : forall label, a ≠ technical label) : a.Legible := by
  cases a with
  | technical label => exact absurd rfl (hne label)
  | _ => exact h

end Address

namespace Operator

theorem isComparison_of_mem_token {o : Operator} {c : Char}
    (h : c ∈ o.token.toList) : Split.isComparison c = true := by
  have hall : o.token.toList.all Split.isComparison = true := by
    cases o <;> decide
  exact List.all_eq_true.mp hall c h

theorem token_ne_nil (o : Operator) : o.token.toList ≠ [] := by
  cases o <;> decide

theorem length_token (o : Operator) :
    o.token.toList.length = 1 ∨ o.token.toList.length = 2 := by
  cases o <;> decide

end Operator

namespace Split

theorem not_blank_of_isComparison {c : Char} (h : isComparison c = true) :
    Text.isBlank c = false := by
  simp only [isComparison, Bool.or_eq_true, beq_iff_eq] at h
  rcases h with (rfl | rfl) | rfl <;> rfl

theorem isSpecial_of_isComparison {c : Char} (h : isComparison c = true) :
    Text.isSpecial c = true := by
  simp only [isComparison, Bool.or_eq_true, beq_iff_eq] at h
  rcases h with (rfl | rfl) | rfl <;> rfl

theorem ne_backslash_of_isComparison {c : Char}
    (h : isComparison c = true) : c ≠ '\\' := by
  intro hc
  rw [hc] at h
  cases h

theorem notMem_stopWord_of_isComparison {c : Char}
    (h : isComparison c = true) (r : Relation) : c ∉ r.stopWord := by
  intro hc
  have hspecial := Relation.not_special_of_mem_stopWord hc
  rw [isSpecial_of_isComparison h] at hspecial
  cases hspecial

theorem notMem_ending_of_isComparison {c : Char}
    (h : isComparison c = true) (r : Relation) : c ∉ r.ending := by
  intro hc
  exact notMem_stopWord_of_isComparison h r (List.mem_append_left _ hc)

end Split

namespace Keyword

theorem ofWord?_firstWord_of_head {c : Char} (hblank : Text.isBlank c = false)
    (hc : c ≠ 'N' ∧ c ≠ 'A' ∧ c ≠ 'O') (rest : List Char) :
    ofWord? (Text.firstWord (c :: rest)) = none := by
  have hword : Text.firstWord (c :: rest) = c :: Text.firstWord rest := by
    simp [Text.firstWord, hblank]
  rw [hword]
  simp [ofWord?, hc]

end Keyword

namespace Address

/-!
# The text of an address
-/

theorem word_facts (f : Field) :
    f.word.toList.all (fun c => Split.isName c && c != '.') = true ∧
      f.word.toList.head?.any (fun c => !Text.isBlank c && c != 'N' &&
        c != 'A' && c != 'O') = true := by
  have hall : Field.listing.all (fun f =>
      f.word.toList.all (fun c => Split.isName c && c != '.') &&
      f.word.toList.head?.any (fun c => !Text.isBlank c && c != 'N' &&
        c != 'A' && c != 'O')) = true := by
    decide +kernel
  have hf := List.all_eq_true.mp hall f (Field.mem_listing f)
  rwa [Bool.and_eq_true] at hf

theorem isName_of_mem_word {f : Field} {c : Char}
    (h : c ∈ f.word.toList) : Split.isName c = true ∧ c ≠ '.' := by
  have hc := List.all_eq_true.mp (word_facts f).1 c h
  simpa using hc

theorem word_ne_nil (f : Field) : f.word.toList ≠ [] := by
  intro h
  have hf := (word_facts f).2
  rw [h] at hf
  cases hf

theorem isName_of_mem_subword {f : Subfield} {c : Char}
    (h : c ∈ f.word.toList) : Split.isName c = true ∧ c ≠ '.' := by
  have hall : f.word.toList.all
      (fun c => Split.isName c && c != '.') = true := by
    cases f <;> decide
  have hc := List.all_eq_true.mp hall c h
  simpa using hc

theorem isPath_of_isName {c : Char} (h : Split.isName c = true) :
    Split.isPath c = true := by
  rw [Split.isPath, h, Bool.true_or]

def path (index : String) (subfield : Option Subfield) : List Char :=
  index.toList ++
    match subfield with
    | some f => '.' :: f.word.toList
    | none => []

def collectionPath (label : String) : List Char :=
  label.toList.map (fun c => if c = ' ' then '_' else c)

theorem chars_statement (index : String) (subfield : Option Subfield) :
    (statement index subfield).chars =
      Shape.statement.lead ++ path index subfield := by
  cases subfield <;> exact List.append_assoc _ _ _

theorem chars_collection (label : String) :
    (collection label).chars =
      Shape.collection.lead ++ collectionPath label := rfl

theorem chars_technical (label : String) :
    (technical label).chars =
      Shape.technical.lead ++ (label.toList ++ [']']) := by
  rw [← List.append_assoc]
  rfl

theorem eq_technical_or (a : Address) :
    (exists label, a = technical label) ∨
      forall label, a ≠ technical label := by
  cases a with
  | technical label => exact Or.inl ⟨label, rfl⟩
  | _ => exact Or.inr (by intro label h; cases h)

theorem path_facts {index : String} {subfield : Option Subfield}
    (h : (statement index subfield).Legible) :
    path index subfield ≠ [] ∧
      forall c, c ∈ path index subfield -> Split.isPath c = true := by
  constructor
  · intro hnil
    exact h.1 (List.append_eq_nil_iff.mp hnil).1
  · intro c hc
    rcases List.mem_append.mp hc with hc | hc
    · exact (h.2 c hc).1
    · cases subfield with
      | none => cases hc
      | some f =>
          rcases List.mem_cons.mp hc with rfl | hc
          · rfl
          · exact isPath_of_isName (isName_of_mem_subword hc).1

theorem collectionPath_facts {label : String}
    (h : (collection label).Legible) :
    collectionPath label ≠ [] ∧
      forall c, c ∈ collectionPath label -> Split.isPath c = true := by
  constructor
  · intro hnil
    exact h.1 (List.map_eq_nil_iff.mp hnil)
  · intro c hc
    rcases List.mem_map.mp hc with ⟨d, hd, rfl⟩
    split
    · rfl
    next hspace =>
      rcases h.2 d hd with hpath | hspace'
      · exact hpath.1
      · exact absurd hspace' hspace

theorem isPath_of_mem_chars {a : Address} (h : a.Legible)
    (hne : forall label, a ≠ technical label) {c : Char} (hc : c ∈ a.chars) :
    Split.isPath c = true := by
  cases a with
  | field f => exact isPath_of_isName (isName_of_mem_word hc).1
  | statement index subfield =>
      rw [chars_statement] at hc
      rcases List.mem_append.mp hc with hc | hc
      · exact List.all_eq_true.mp
          (show Shape.statement.lead.all Split.isPath = true by decide) c hc
      · exact (path_facts h).2 c hc
  | collection label =>
      rw [chars_collection] at hc
      rcases List.mem_append.mp hc with hc | hc
      · exact List.all_eq_true.mp
          (show Shape.collection.lead.all Split.isPath = true by decide) c hc
      · exact (collectionPath_facts h).2 c hc
  | technical label => exact absurd rfl (hne label)

theorem notMem_chars {a : Address} (h : a.Legible)
    (hne : forall label, a ≠ technical label) {d : Char}
    (hd : Split.isPath d = false) : d ∉ a.chars := by
  intro hmem
  rw [isPath_of_mem_chars h hne hmem] at hd
  cases hd

theorem brackets_chars {a : Address} (h : a.Legible) :
    Text.brackets false a.chars = [] := by
  rcases eq_technical_or a with ⟨label, rfl⟩ | hne
  · rw [chars_technical, Text.brackets_append, Text.brackets_append]
    have hlead : Text.brackets false Shape.technical.lead = [] := rfl
    have hflag : Text.escapedAfter false Shape.technical.lead = false := by
      decide
    have hclose : Text.brackets (Text.escapedAfter false label.toList) [']'] =
        [] :=
      Text.brackets_of_notMem (by decide) (by decide) _
    rw [hlead, hflag, h.2.1, hclose]
    rfl
  · exact Text.brackets_of_notMem (notMem_chars h hne rfl)
      (notMem_chars h hne rfl) false

theorem noStopWord_chars {a : Address} (h : a.Legible) :
    Text.NoStopWord a.chars := by
  rcases eq_technical_or a with ⟨label, rfl⟩ | hne
  · have hopen : forall r : Relation, '[' ∉ r.stopWord := by
      intro r
      cases r <;> decide
    have hclose : forall r : Relation, ']' ∉ r.stopWord := by
      intro r
      cases r <;> decide
    have hsplit : (technical label).chars =
        "technical".toList ++ '[' :: (label.toList ++ [']']) := by
      rw [chars_technical]
      rfl
    rw [hsplit, Text.noStopWord_append_cons_iff hopen,
      Text.noStopWord_append_cons_iff hclose]
    refine ⟨?_, h.2.2, Text.noStopWord_nil⟩
    exact Text.noStopWord_of_notMem (by decide)
  · have hspace : ' ' ∉ a.chars := notMem_chars h hne rfl
    exact Text.noStopWord_of_notMem hspace

theorem exists_chars_eq_cons (a : Address) :
    exists c rest, a.chars = c :: rest ∧ Text.isBlank c = false ∧
      c ≠ 'N' ∧ c ≠ 'A' ∧ c ≠ 'O' := by
  cases a with
  | field f =>
      have hf := (word_facts f).2
      show exists c rest, f.word.toList = c :: rest ∧ _
      cases hword : f.word.toList with
      | nil =>
          rw [hword] at hf
          cases hf
      | cons c rest =>
          rw [hword] at hf
          refine ⟨c, rest, rfl, ?_⟩
          simpa [and_assoc] using hf
  | statement index subfield =>
      rw [chars_statement]
      exact ⟨'m', _, rfl, by decide⟩
  | collection label => exact ⟨'c', _, rfl, by decide⟩
  | technical label =>
      rw [chars_technical]
      exact ⟨'t', _, rfl, by decide⟩

end Address

namespace Term

/-!
# The text of a term
-/

def head (t : Term) : List Char :=
  t.address.chars ++ t.operator.token.toList

def body (t : Term) : List Char :=
  t.head ++ Text.escape t.value.toList

theorem charsWith_escape (t : Term) :
    t.charsWith Text.escape = negation t.negated ++ t.body := by
  simp [charsWith, body, head]

theorem exists_head_eq_concat (t : Term) :
    exists front c, t.head = front ++ [c] ∧ Split.isComparison c = true ∧
      (t.address.Legible -> Text.NoStopWord front) := by
  have hspace : ' ' ∉ t.operator.token.toList := by
    cases t.operator <;> decide
  rcases List.eq_nil_or_concat t.operator.token.toList with hnil | ⟨x, c, hx⟩
  · exact absurd hnil t.operator.token_ne_nil
  · rw [List.concat_eq_append] at hx
    refine ⟨t.address.chars ++ x, c, ?_, ?_, ?_⟩
    · rw [head, hx, List.append_assoc]
    · apply Operator.isComparison_of_mem_token (o := t.operator)
      rw [hx]
      exact List.mem_append_right x (List.mem_singleton.mpr rfl)
    · intro ha
      apply (Address.noStopWord_chars ha).append_of_notMem
      intro hmem
      rw [hx] at hspace
      exact hspace (List.mem_append_left [c] hmem)

section Head

variable {t : Term}

theorem head_ne_nil (t : Term) : t.head ≠ [] := by
  rcases t.exists_head_eq_concat with ⟨front, c, hhead, _, _⟩
  rw [hhead]
  simp

theorem escapedAfter_head (t : Term) :
    Text.escapedAfter false t.head = false := by
  rcases t.exists_head_eq_concat with ⟨front, c, hhead, hc, _⟩
  rw [hhead]
  exact Text.escapedAfter_concat (Split.ne_backslash_of_isComparison hc) _ _

theorem brackets_head (h : t.address.Legible) :
    Text.brackets false t.head = [] := by
  have htoken : Text.brackets (Text.escapedAfter false t.address.chars)
      t.operator.token.toList = [] := by
    apply Text.brackets_of_notMem
    · cases t.operator <;> decide
    · cases t.operator <;> decide
  rw [head, Text.brackets_append, Address.brackets_chars h, htoken]
  rfl

theorem noStopWord_head_append_iff (h : t.address.Legible)
    {text : List Char} :
    Text.NoStopWord (t.head ++ text) <-> Text.NoStopWord text := by
  rcases t.exists_head_eq_concat with ⟨front, c, hhead, hc, hfront⟩
  rw [hhead, List.append_assoc, List.singleton_append,
    Text.noStopWord_append_cons_iff (Split.notMem_stopWord_of_isComparison hc)]
  constructor
  · intro hstop
    exact hstop.2
  · intro hstop
    exact ⟨hfront h, hstop⟩

theorem noEnding_head_append_iff (t : Term) {text : List Char} :
    Text.NoEnding (t.head ++ text) <-> Text.NoEnding text := by
  rcases t.exists_head_eq_concat with ⟨front, c, hhead, hc, _⟩
  rw [hhead, List.append_assoc, List.singleton_append,
    Text.noEnding_append_cons_iff (Split.notMem_ending_of_isComparison hc)]

theorem trimEnd_head_append (t : Term) (text : List Char) :
    Text.trimEnd (t.head ++ text) = t.head ++ Text.trimEnd text := by
  rcases t.exists_head_eq_concat with ⟨front, c, hhead, hc, _⟩
  rw [hhead, List.append_assoc, List.append_assoc]
  exact Text.trimEnd_append_of_not_blank (Split.not_blank_of_isComparison hc)
    front text

theorem ofWord?_firstWord_head_append (t : Term) (text : List Char) :
    Keyword.ofWord? (Text.firstWord (t.head ++ text)) = none := by
  rcases Address.exists_chars_eq_cons t.address with
    ⟨c, rest, hchars, hblank, hc⟩
  rw [head, hchars]
  exact Keyword.ofWord?_firstWord_of_head hblank hc _

/-- A text without brackets and stop words continues the head of a term to a
flat text. -/
theorem flat_head_append (h : t.address.Legible) {text : List Char}
    (hbrackets : Text.brackets false text = [])
    (hstop : Text.NoStopWord text) : Flat (t.head ++ text) where
  head := by
    intro d hd
    rcases Address.exists_chars_eq_cons t.address with
      ⟨c, rest, hchars, hblank, _⟩
    rw [head, hchars] at hd
    cases hd
    exact hblank
  brackets := by
    rw [Text.brackets_append, brackets_head h, t.escapedAfter_head, hbrackets]
    rfl
  word := fun _ => t.ofWord?_firstWord_head_append text
  stop := (noStopWord_head_append_iff h).mpr hstop

end Head

end Term

end SearchQuery
