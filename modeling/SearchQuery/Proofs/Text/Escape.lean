import SearchQuery.Text.Characters

/-!
# Escapes across a text

Whether a character is escaped is decided by all the characters before it.  This
module follows that flag through a text and shows that escaped text leaves it
down, that removing escapes goes part by part wherever the flag is down, and
that words without special characters are found in a text exactly where they are
found in its escaped form.
-/

namespace SearchQuery
namespace Text

/-- Whether the character behind a text is escaped, given whether the first
character of the text is. -/
def escapedAfter (escaped : Bool) (text : List Char) : Bool :=
  text.foldl escapesNext escaped

@[simp] theorem escapedAfter_cons (escaped : Bool) (c : Char)
    (rest : List Char) :
    escapedAfter escaped (c :: rest) =
      escapedAfter (escapesNext escaped c) rest := rfl

theorem escapedAfter_append (escaped : Bool) (a b : List Char) :
    escapedAfter escaped (a ++ b) =
      escapedAfter (escapedAfter escaped a) b :=
  List.foldl_append

theorem escapesNext_of_ne {c : Char} (h : c ≠ '\\') (escaped : Bool) :
    escapesNext escaped c = false := by
  simp [escapesNext, h]

theorem escapedAfter_concat {c : Char} (h : c ≠ '\\') (escaped : Bool)
    (text : List Char) : escapedAfter escaped (text ++ [c]) = false := by
  rw [escapedAfter_append]
  exact escapesNext_of_ne h _

theorem escape_cons_of_special {c : Char} (h : isSpecial c = true)
    (rest : List Char) : escape (c :: rest) = '\\' :: c :: escape rest := by
  rw [escape, if_pos h]

theorem escape_cons_of_not_special {c : Char} (h : isSpecial c = false)
    (rest : List Char) : escape (c :: rest) = c :: escape rest := by
  rw [escape, if_neg (by rw [h]; exact Bool.false_ne_true)]

theorem ne_backslash_of_not_special {c : Char} (h : isSpecial c = false) :
    c ≠ '\\' := by
  intro hc
  rw [hc] at h
  cases h

theorem escapedAfter_escape (text : List Char) :
    escapedAfter false (escape text) = false := by
  induction text with
  | nil => rfl
  | cons c rest ih =>
      cases h : isSpecial c with
      | true =>
          rw [escape_cons_of_special h]
          simpa [escapesNext] using ih
      | false =>
          rw [escape_cons_of_not_special h, escapedAfter_cons,
            escapesNext_of_ne (ne_backslash_of_not_special h)]
          exact ih

@[simp] theorem escape_eq_nil_iff {text : List Char} :
    escape text = [] <-> text = [] := by
  constructor
  · intro h
    cases text with
    | nil => rfl
    | cons c rest =>
        rw [escape] at h
        split at h <;> cases h
  · intro h
    rw [h]
    rfl

theorem getLast?_escape (text : List Char) :
    (escape text).getLast? = text.getLast? := by
  induction text with
  | nil => rfl
  | cons c rest ih =>
      cases h : isSpecial c with
      | true =>
          rw [escape_cons_of_special h, List.getLast?_cons_cons,
            List.getLast?_cons, List.getLast?_cons, ih]
      | false =>
          rw [escape_cons_of_not_special h, List.getLast?_cons,
            List.getLast?_cons, ih]

/-!
# Removing escapes part by part
-/

theorem length_unescape_lt_of_isPrefix {p text : List Char}
    (h : p <+: escape text) (hne : p ≠ escape text) :
    (unescape p).length < text.length := by
  induction text generalizing p with
  | nil => exact absurd (List.prefix_nil.mp h) hne
  | cons c rest ih =>
      cases hc : isSpecial c with
      | true =>
          rw [escape_cons_of_special hc] at h hne
          rcases List.prefix_cons_iff.mp h with rfl | ⟨t, rfl, ht⟩
          · exact Nat.zero_lt_succ _
          rcases List.prefix_cons_iff.mp ht with rfl | ⟨u, rfl, hu⟩
          · exact Nat.zero_lt_succ _
          · rw [unescape, List.length_cons, List.length_cons]
            apply Nat.succ_lt_succ
            apply ih hu
            intro heq
            rw [heq] at hne
            exact hne rfl
      | false =>
          rw [escape_cons_of_not_special hc] at h hne
          rcases List.prefix_cons_iff.mp h with rfl | ⟨t, rfl, ht⟩
          · exact Nat.zero_lt_succ _
          · rw [unescape_cons_of_ne (ne_backslash_of_not_special hc),
              List.length_cons, List.length_cons]
            apply Nat.succ_lt_succ
            apply ih ht
            intro heq
            rw [heq] at hne
            exact hne rfl

theorem length_unescape_le_of_isPrefix {p text : List Char}
    (h : p <+: escape text) : (unescape p).length ≤ text.length := by
  by_cases heq : p = escape text
  · apply Nat.le_of_eq
    rw [heq, unescape_escape]
  · exact Nat.le_of_lt (length_unescape_lt_of_isPrefix h heq)

theorem eq_escape_of_unescape {p text : List Char} (hp : p <+: escape text)
    (h : unescape p = text) : p = escape text := by
  by_cases heq : p = escape text
  · exact heq
  · have hlt := length_unescape_lt_of_isPrefix hp heq
    rw [h] at hlt
    exact absurd hlt (Nat.lt_irrefl _)

/-!
# Finding words in an escaped text
-/

/-- Where a character `c` of an escaped text comes from, with the parts `a` and `b`
of that text in front of it and behind it. -/
inductive WrittenFor (text a : List Char) (c : Char) (b : List Char) : Prop where
  -- It is written behind the backslash that escapes it.
  | escaped {x y : List Char} : text = x ++ c :: y -> a = escape x ++ ['\\'] ->
      b = escape y -> isSpecial c = true -> WrittenFor text a c b
  -- It is the backslash in front of a special character.
  | escaping {x y : List Char} {d : Char} : text = x ++ d :: y -> a = escape x ->
      c = '\\' -> b = d :: escape y -> isSpecial d = true -> WrittenFor text a c b
  -- It is written as it is.
  | plain {x y : List Char} : text = x ++ c :: y -> a = escape x ->
      b = escape y -> isSpecial c = false -> WrittenFor text a c b

theorem WrittenFor.append_left {text a b : List Char} {c : Char}
    (h : WrittenFor text a c b) (front : List Char) :
    WrittenFor (front ++ text) (escape front ++ a) c b := by
  cases h with
  | @escaped x y htext ha hb hc =>
      refine escaped (x := front ++ x) ?_ ?_ hb hc
      · rw [htext, List.append_assoc]
      · rw [ha, escape_append, List.append_assoc]
  | @escaping x y d htext ha hc hb hd =>
      refine escaping (x := front ++ x) ?_ ?_ hc hb hd
      · rw [htext, List.append_assoc]
      · rw [ha, escape_append]
  | @plain x y htext ha hb hc =>
      refine plain (x := front ++ x) ?_ ?_ hb hc
      · rw [htext, List.append_assoc]
      · rw [ha, escape_append]

theorem writtenFor_of_escape_eq {text a b : List Char} {c : Char}
    (h : escape text = a ++ c :: b) : WrittenFor text a c b := by
  induction text generalizing a with
  | nil => simp [escape] at h
  | cons d rest ih =>
      cases hd : isSpecial d with
      | true =>
          have hfront : escape [d] = ['\\', d] := escape_cons_of_special hd []
          rw [escape_cons_of_special hd] at h
          rcases a with _ | ⟨a₁, _ | ⟨a₂, a⟩⟩
          · cases h
            exact WrittenFor.escaping (x := []) rfl rfl rfl rfl hd
          · cases h
            exact WrittenFor.escaped (x := []) rfl rfl rfl hd
          · injection h with h₁ h
            injection h with h₂ h
            have hrest := (ih h).append_left [d]
            rw [hfront] at hrest
            rw [← h₁, ← h₂]
            exact hrest
      | false =>
          have hfront : escape [d] = [d] := escape_cons_of_not_special hd []
          rw [escape_cons_of_not_special hd] at h
          rcases a with _ | ⟨a₁, a⟩
          · cases h
            exact WrittenFor.plain (x := []) rfl rfl rfl hd
          · injection h with h₁ h
            have hrest := (ih h).append_left [d]
            rw [hfront] at hrest
            rw [← h₁]
            exact hrest

theorem eq_append_of_escape_eq {c : Char} (hc : isSpecial c = false)
    {text a b : List Char} (h : escape text = a ++ c :: b) :
    exists x y, text = x ++ c :: y ∧ escape x = a ∧ escape y = b := by
  cases writtenFor_of_escape_eq h with
  | escaped _ _ _ hspecial =>
      rw [hc] at hspecial
      cases hspecial
  | escaping _ _ heq => exact absurd heq (ne_backslash_of_not_special hc)
  | plain htext ha hb => exact ⟨_, _, htext, ha.symm, hb.symm⟩

theorem eq_append_of_escape_eq_append {word : List Char}
    (hword : forall c, c ∈ word -> isSpecial c = false)
    {text b : List Char} (h : escape text = word ++ b) :
    exists y, text = word ++ y ∧ escape y = b := by
  induction word generalizing text with
  | nil => exact ⟨text, rfl, h⟩
  | cons c word ih =>
      have hc := hword c List.mem_cons_self
      have h' : escape text = [] ++ c :: (word ++ b) := h
      rcases eq_append_of_escape_eq hc h' with ⟨x, y, rfl, hx, hy⟩
      have hword' : forall d, d ∈ word -> isSpecial d = false := by
        intro d hd
        exact hword d (List.mem_cons_of_mem c hd)
      rcases ih hword' hy with ⟨z, rfl, hz⟩
      rw [escape_eq_nil_iff.mp hx]
      exact ⟨z, rfl, hz⟩

theorem eq_append_word_of_escape_eq {word : List Char} (hne : word ≠ [])
    (hword : forall c, c ∈ word -> isSpecial c = false)
    {text a b : List Char} (h : escape text = a ++ word ++ b) :
    exists x y, text = x ++ word ++ y ∧ escape x = a ∧ escape y = b := by
  cases word with
  | nil => exact absurd rfl hne
  | cons c word =>
      have hc := hword c List.mem_cons_self
      rw [List.append_assoc] at h
      rcases eq_append_of_escape_eq hc h with ⟨x, y, rfl, hx, hy⟩
      have hword' : forall d, d ∈ word -> isSpecial d = false := by
        intro d hd
        exact hword d (List.mem_cons_of_mem c hd)
      rcases eq_append_of_escape_eq_append hword' hy with ⟨z, rfl, hz⟩
      exact ⟨x, z, by simp, hx, hz⟩

theorem escape_of_plain {word : List Char}
    (hword : forall c, c ∈ word -> isSpecial c = false) :
    escape word = word := by
  induction word with
  | nil => rfl
  | cons c word ih =>
      rw [escape_cons_of_not_special (hword c List.mem_cons_self), ih]
      intro d hd
      exact hword d (List.mem_cons_of_mem c hd)

section Word

variable {word : List Char} (hne : word ≠ [])
  (hword : forall c, c ∈ word -> isSpecial c = false)

include hne hword

theorem infix_escape_iff {text : List Char} :
    word <:+: escape text <-> word <:+: text := by
  constructor
  · intro hparts
    rcases hparts with ⟨a, b, h⟩
    rcases eq_append_word_of_escape_eq hne hword h.symm with ⟨x, y, hxy, _, _⟩
    exact ⟨x, y, hxy.symm⟩
  · intro hparts
    rcases hparts with ⟨x, y, rfl⟩
    rw [escape_append, escape_append, escape_of_plain hword]
    exact ⟨escape x, escape y, rfl⟩

theorem suffix_escape_iff {text : List Char} :
    word <:+ escape text <-> word <:+ text := by
  constructor
  · intro hparts
    rcases hparts with ⟨a, h⟩
    have h' : escape text = a ++ word ++ [] := by rw [List.append_nil, h]
    rcases eq_append_word_of_escape_eq hne hword h' with ⟨x, y, hxy, _, hy⟩
    rw [escape_eq_nil_iff.mp hy, List.append_nil] at hxy
    exact ⟨x, hxy.symm⟩
  · intro hparts
    rcases hparts with ⟨x, rfl⟩
    rw [escape_append, escape_of_plain hword]
    exact ⟨escape x, rfl⟩

end Word

end Text
end SearchQuery
