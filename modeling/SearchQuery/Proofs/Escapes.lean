import SearchQuery.Proofs.Outline.Simulation
import SearchQuery.Proofs.Text.Codec

/-!
# Escapes of a text

What is written for a value, what a text is read as and what a scan takes for escaped
rest on one notion of an escape.  The flag of a scan is that of all the text that it
has read, although the scan skips some characters and drops every part it completes.
-/

namespace SearchQuery

namespace Reading

variable {l : Level} {r : Reading} {c : Char}

theorem escaped_of_transition {m : Move} (h : Transition l r c m)
    {next : Reading} (hm : m.next? = some next) :
    next.part.escaped = Text.escapesNext r.part.escaped c := by
  have hnone : forall d, d ≠ '\\' ->
      Text.escapesNext r.part.escaped d = false := by
    intro d hd
    exact Text.escapesNext_of_ne hd _
  cases h with
  | skip hs hblank =>
      cases hm
      rw [hnone c (Text.ne_of_isBlank hblank rfl), part, hs]
  | @keyword p k hs hblank hk =>
      cases hm
      rw [hnone c (Text.ne_of_isBlank hblank rfl)]
      cases k <;> rfl
  | grow hopens hcloses hgrows =>
      cases hm
      rw [(openBrackets_of_grows hgrows).2, Part.escaped_push]
  | stopWord hs hstop =>
      cases hm
      rw [Part.stopWord?_eq_some_iff, Part.text_push,
        Text.stopWord_suffix_concat_iff] at hstop
      rw [hstop.1, hnone ' ' (by decide)]
      rfl
  | opening hopens hallows =>
      cases hm
      rw [Text.eq_of_bracket?_opening (Part.opens_eq_true_iff.mp hopens)]
      rfl
  | openingBehind hs hopens hk hallows =>
      cases hm
      rw [Text.eq_of_bracket?_opening (Part.opens_eq_true_iff.mp hopens),
        hnone '(' (by decide)]
      rfl
  | tooDeep => cases hm
  | @closing p inner hs hcloses =>
      cases hm
      simp only [part, hs, Part.escaped_push]
  | groupEnd hs hcloses htext =>
      cases hm
      rw [Text.eq_of_bracket?_closing (Part.closes_eq_true_iff.mp hcloses),
        hnone ')' (by decide)]
      rfl
  | stray => cases hm
  | unmatched => cases hm

theorem escaped_of_run {last : Reading} {text : List Char}
    (h : (r.run l text).2 = .ok last) :
    last.part.escaped = Text.escapedAfter r.part.escaped text := by
  refine holds_of_run (I := fun done last =>
    last.part.escaped = Text.escapedAfter r.part.escaped done) ?_ [] text rfl h
  intro done s c m next htransition hm hs
  rw [escaped_of_transition htransition hm, Text.escapedAfter_append, ← hs]
  rfl

end Reading

theorem Scanner.escaped_of_run {l : Level} {text : List Char} {s : Scanner}
    (h : (Scanner.run l {} text).2 = .ok s) :
    s.escaped = Text.escapedAfter false text := by
  rcases exists_of_run h with ⟨last, hlast, rfl⟩
  exact Reading.escaped_of_run hlast

namespace Text

/-- Reading undoes writing.  Texts in a row are read one by one if no escape is open
between them, and only then.  A scan, whose flag is that of the text it has read, meets
no bracket and no operator character in a written value that is not escaped, and no
escape is open behind the value.  A text is what is written for its reading if and only
if its escapes are those that are needed.  And passing a text on as it is, where there
is nothing to escape or no escape to drop, gives what going through it gives. -/
theorem escapes_agree :
    (forall value, unescape (escape value) = value) ∧
      (forall a, escapedAfter false a = false <->
        forall b, unescape (a ++ b) = unescape a ++ unescape b) ∧
      ((forall l done s, (Scanner.run l {} done).2 = .ok s ->
          s.escaped = escapedAfter false done) ∧
        forall value, escapedAfter false (escape value) = false ∧
          forall a c b, escape value = a ++ c :: b ->
            c ∈ ['(', ')', '=', '<', '>'] -> escapedAfter false a = true) ∧
      (forall text, escape (unescape text) = text <-> IsEscaped text) ∧
      forall text,
        (escapeInto [] text = escape text ∧
          (escapeCopy text).text = escapeInto [] text ∧
          (escapeCopy text = .same text <-> escapeInto [] text = text)) ∧
        unescapeInto [] text = unescape text ∧
          (unescapeCopy text).text = unescapeInto [] text ∧
          (unescapeCopy text = .same text <-> unescapeInto [] text = text) := by
  refine ⟨unescape_escape, fun a => escapedAfter_eq_false_iff, ⟨?_, ?_⟩,
    fun text => escape_unescape_eq_iff, ?_⟩
  · intro l done s hrun
    exact Scanner.escaped_of_run hrun
  · intro value
    exact ⟨escapedAfter_escape value, (isEscaped_escape value).of_punctuation⟩
  · intro text
    rw [escapeInto_eq, unescapeInto_eq, List.nil_append, List.nil_append,
      escapeCopy_eq, unescapeCopy_eq]
    exact ⟨⟨rfl, Copy.text_sparing, Copy.sparing_eq_same_iff⟩, rfl,
      Copy.text_sparing, Copy.sparing_eq_same_iff⟩

theorem escapes_agree_backslash :
    escape "\\(".toList = "\\\\\\(".toList ∧
      unescape "\\\\\\(".toList = "\\(".toList ∧
      escapedAfter false "\\\\\\".toList = true ∧
      (Scanner.run { text := "x=\\\\\\(".toList, limit := 0 } {}
          "x=\\\\".toList).2 = .ok { part := "x=\\\\".toList } ∧
      escapedAfter false "x=\\\\".toList = false ∧
      unescape ("x=\\\\".toList ++ "\\(".toList) =
        unescape "x=\\\\".toList ++ unescape "\\(".toList ∧
      IsEscaped "x\\=\\\\\\(".toList ∧ ¬ IsEscaped "\\x".toList ∧
      escapeCopy "x y".toList = .same "x y".toList := by
  rcases escapes_agree with ⟨hvalue, hcut, ⟨hscan, hfind⟩, hform, hcopy⟩
  have hrun : (Scanner.run { text := "x=\\\\\\(".toList, limit := 0 } {}
      "x=\\\\".toList).2 = .ok { part := "x=\\\\".toList } := rfl
  have hflag : escapedAfter false "x=\\\\".toList = false :=
    (hscan _ _ _ hrun).symm
  refine ⟨rfl, hvalue "\\(".toList, ?_, hrun, hflag, (hcut _).mp hflag _,
    (hform _).mp rfl, ?_, (hcopy _).1.2.2.mpr rfl⟩
  · exact (hfind "\\(".toList).2 "\\\\\\".toList '(' [] rfl (by decide)
  · intro h
    cases (hform _).mpr h

end Text

end SearchQuery
