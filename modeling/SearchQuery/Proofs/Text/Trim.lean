import SearchQuery.Text.Characters

/-!
# Trimming

Trimming the end of a text takes blanks away and nothing else, and it does not
look past a character that is not blank.
-/

namespace SearchQuery
namespace Text

theorem ne_of_isBlank {c d : Char} (hc : isBlank c = true)
    (hd : isBlank d = false) : c ≠ d := by
  intro heq
  rw [heq, hd] at hc
  cases hc

@[simp] theorem trimEnd_nil : trimEnd [] = [] := rfl

theorem trimEnd_concat_of_blank {c : Char} (h : isBlank c = true)
    (text : List Char) : trimEnd (text ++ [c]) = trimEnd text := by
  simp [trimEnd, h]

theorem trimEnd_concat_of_not_blank {c : Char} (h : isBlank c = false)
    (text : List Char) : trimEnd (text ++ [c]) = text ++ [c] := by
  simp [trimEnd, h]

theorem trimEnd_append_blanks {blanks : List Char}
    (h : forall c, c ∈ blanks -> isBlank c = true) (text : List Char) :
    trimEnd (text ++ blanks) = trimEnd text := by
  induction blanks generalizing text with
  | nil => rw [List.append_nil]
  | cons c rest ih =>
      have hrest : forall d, d ∈ rest -> isBlank d = true := by
        intro d hd
        exact h d (List.mem_cons_of_mem c hd)
      rw [List.append_cons, ih hrest]
      exact trimEnd_concat_of_blank (h c List.mem_cons_self) text

theorem exists_blanks (text : List Char) :
    exists blanks, text = trimEnd text ++ blanks ∧
      forall c, c ∈ blanks -> isBlank c = true := by
  refine ⟨(text.reverse.takeWhile isBlank).reverse, ?_, ?_⟩
  · rw [trimEnd, ← List.reverse_append, List.takeWhile_append_dropWhile,
      List.reverse_reverse]
  · intro c hc
    rw [List.mem_reverse] at hc
    exact List.all_eq_true.mp List.all_takeWhile c hc

theorem trimEnd_isPrefix (text : List Char) : trimEnd text <+: text := by
  rcases exists_blanks text with ⟨blanks, h, _⟩
  exact ⟨blanks, h.symm⟩

theorem trimEnd_eq_self_iff {text : List Char} :
    trimEnd text = text <->
      forall c, text.getLast? = some c -> isBlank c = false := by
  rcases List.eq_nil_or_concat text with rfl | ⟨front, c, rfl⟩
  · simp
  rw [List.concat_eq_append]
  cases h : isBlank c with
  | false => simp [trimEnd_concat_of_not_blank h, h]
  | true =>
      simp only [trimEnd_concat_of_blank h, List.getLast?_concat,
        Option.some.injEq, forall_eq']
      constructor
      · intro heq
        have hlen := (trimEnd_isPrefix front).length_le
        rw [heq, List.length_append] at hlen
        exact absurd hlen (Nat.not_succ_le_self _)
      · intro hc
        rw [h] at hc
        cases hc

theorem not_blank_of_getLast?_trimEnd {text : List Char} {c : Char}
    (h : (trimEnd text).getLast? = some c) : isBlank c = false := by
  rw [trimEnd, List.getLast?_reverse] at h
  have hhead := List.head?_dropWhile_not isBlank text.reverse
  rw [h] at hhead
  simpa using hhead

/-- Trimming leaves everything up to a character that is not blank. -/
theorem trimEnd_append_of_not_blank {c : Char} (h : isBlank c = false)
    (a b : List Char) :
    trimEnd (a ++ c :: b) = a ++ c :: trimEnd b := by
  rcases exists_blanks b with ⟨blanks, hb, hblanks⟩
  have hsplit : a ++ c :: b = (a ++ c :: trimEnd b) ++ blanks := by
    rw [List.append_assoc, List.cons_append, ← hb]
  rw [hsplit, trimEnd_append_blanks hblanks, trimEnd_eq_self_iff]
  intro d hd
  rw [List.getLast?_append, List.getLast?_cons, Option.some_or] at hd
  cases hlast : (trimEnd b).getLast? with
  | none =>
      rw [hlast] at hd
      cases hd
      exact h
  | some e =>
      rw [hlast] at hd
      cases hd
      exact not_blank_of_getLast?_trimEnd hlast

theorem trimEnd_append {b : List Char} (h : trimEnd b ≠ [])
    (a : List Char) : trimEnd (a ++ b) = a ++ trimEnd b := by
  rcases exists_blanks b with ⟨blanks, hb, hblanks⟩
  have hsplit : a ++ b = (a ++ trimEnd b) ++ blanks := by
    rw [List.append_assoc, ← hb]
  rw [hsplit, trimEnd_append_blanks hblanks, trimEnd_eq_self_iff]
  intro c hc
  rw [List.getLast?_append] at hc
  cases hlast : (trimEnd b).getLast? with
  | none => exact absurd (List.getLast?_eq_none_iff.mp hlast) h
  | some d =>
      rw [hlast] at hc
      cases hc
      exact not_blank_of_getLast?_trimEnd hlast

@[simp] theorem trimEnd_trimEnd (text : List Char) :
    trimEnd (trimEnd text) = trimEnd text := by
  rw [trimEnd_eq_self_iff]
  intro c hc
  exact not_blank_of_getLast?_trimEnd hc

theorem trim_of_not_blank {c : Char} (h : isBlank c = false)
    (text : List Char) : trim (c :: text) = trimEnd (c :: text) := by
  rw [trim, trimStart, List.dropWhile_cons_of_neg]
  rw [h]
  exact Bool.false_ne_true

theorem exists_trim_eq_cons {c : Char} (h : isBlank c = false)
    (text : List Char) : exists rest, trim (c :: text) = c :: rest := by
  rw [trim_of_not_blank h]
  exact ⟨trimEnd text, trimEnd_append_of_not_blank h [] text⟩

end Text
end SearchQuery
