import SearchQuery.Proofs.Text.Escape

/-!
# The escape code

Three things decide what an escape is: which characters are written with a backslash,
how a text is taken apart when its escapes are dropped, and the flag that is carried
along when a text is scanned.  This module shows that they fit together.  The flag is
down exactly where a text may be cut without changing what its parts stand for, and
the texts that are written are those in which every escape has a reason.
-/

namespace SearchQuery
namespace Text

def punctuation : List Char :=
  ['(', ')', '=', '<', '>']

theorem isSpecial_eq (c : Char) :
    isSpecial c = (c == '\\' || punctuation.contains c) := by
  simp only [isSpecial, punctuation, List.contains_cons, List.contains_nil,
    Bool.or_assoc, Bool.or_false]

theorem isSpecial_iff {c : Char} :
    isSpecial c = true <-> c = '\\' ∨ c ∈ punctuation := by
  rw [isSpecial_eq, Bool.or_eq_true, beq_iff_eq, List.contains_iff_mem]

theorem ne_backslash_of_mem_punctuation {c : Char} (h : c ∈ punctuation) :
    c ≠ '\\' := by
  intro hc
  rw [hc] at h
  exact absurd h (by decide)

/-!
# Cutting a text
-/

/-- A text is read in stretches: a backslash with the character that it escapes, any
other character, and at the end a backslash with nothing behind it. -/
@[elab_as_elim]
theorem stretchInduction {motive : List Char -> Prop} (nil : motive [])
    (lone : motive ['\\'])
    (pair : forall c rest, motive rest -> motive ('\\' :: c :: rest))
    (plain : forall c rest, c ≠ '\\' -> motive rest -> motive (c :: rest))
    (text : List Char) : motive text := by
  fun_induction unescape text with
  | case1 => exact nil
  | case2 => exact lone
  | case3 c rest ih => exact pair c rest ih
  | case4 c rest hlone hpair ih =>
      apply plain c rest _ ih
      intro hc
      cases rest with
      | nil => exact hlone hc rfl
      | cons d rest => exact hpair d rest hc rfl

def unescapeFrom : Bool -> List Char -> List Char
  | true, c :: rest => c :: unescape rest
  | _, text => unescape text

theorem unescapeFrom_false (text : List Char) :
    unescapeFrom false text = unescape text := by
  cases text <;> rfl

theorem unescape_backslash (text : List Char) :
    unescape ('\\' :: text) = unescapeFrom true text := by
  cases text <;> rfl

theorem escapedAfter_pair (c : Char) (rest : List Char) :
    escapedAfter false ('\\' :: c :: rest) = escapedAfter false rest := rfl

theorem escapedAfter_plain {c : Char} (h : c ≠ '\\') (rest : List Char) :
    escapedAfter false (c :: rest) = escapedAfter false rest := by
  rw [escapedAfter_cons, escapesNext_of_ne h]

theorem unescape_append_eq (a b : List Char) :
    unescape (a ++ b) =
      unescape a ++ unescapeFrom (escapedAfter false a) b := by
  induction a using stretchInduction with
  | nil => exact (unescapeFrom_false b).symm
  | lone => exact unescape_backslash b
  | pair c rest ih =>
      rw [escapedAfter_pair]
      exact congrArg (c :: ·) ih
  | plain c rest hc ih =>
      rw [List.cons_append, unescape_cons_of_ne hc, ih, escapedAfter_plain hc,
        unescape_cons_of_ne hc, List.cons_append]

theorem escapedAfter_eq_false_iff {a : List Char} :
    escapedAfter false a = false <->
      forall b, unescape (a ++ b) = unescape a ++ unescape b := by
  constructor
  · intro h b
    rw [unescape_append_eq, h, unescapeFrom_false]
  · intro h
    cases hflag : escapedAfter false a with
    | false => rfl
    | true =>
        -- A second backslash would be kept behind the open escape.
        have hcut := h ['\\']
        rw [unescape_append_eq, hflag] at hcut
        cases List.append_cancel_left hcut

/-!
# Texts that are written
-/

/-- Every backslash that escapes something escapes a special character, and no
punctuation stands without one. -/
structure IsEscaped (text : List Char) : Prop where
  of_backslash : forall a b, text = a ++ '\\' :: b ->
    escapedAfter false a = false ->
      exists c rest, b = c :: rest ∧ (c = '\\' ∨ c ∈ punctuation)
  of_punctuation : forall a c b, text = a ++ c :: b -> c ∈ punctuation ->
    escapedAfter false a = true

theorem isEscaped_escape (text : List Char) : IsEscaped (escape text) := by
  constructor
  · intro a b h hflag
    cases writtenFor_of_escape_eq h with
    | escaped _ ha =>
        rw [ha, escapedAfter_append, escapedAfter_escape] at hflag
        cases hflag
    | escaping _ _ _ hb hd => exact ⟨_, _, hb, isSpecial_iff.mp hd⟩
    | plain _ _ _ hc => cases hc
  · intro a c b h hmem
    cases writtenFor_of_escape_eq h with
    | escaped _ ha =>
        rw [ha, escapedAfter_append, escapedAfter_escape]
        rfl
    | escaping _ _ hc => exact absurd hc (ne_backslash_of_mem_punctuation hmem)
    | plain _ _ _ hc =>
        rw [isSpecial_iff.mpr (Or.inr hmem)] at hc
        cases hc

theorem IsEscaped.of_append {a b : List Char} (h : IsEscaped (a ++ b))
    (hflag : escapedAfter false a = false) : IsEscaped b := by
  have hbehind : forall x, escapedAfter false (a ++ x) = escapedAfter false x := by
    intro x
    rw [escapedAfter_append, hflag]
  constructor
  · intro x y hb hx
    apply h.of_backslash (a ++ x) y
    · rw [hb, List.append_assoc]
    · rw [hbehind, hx]
  · intro x c y hb hc
    rw [← hbehind]
    apply h.of_punctuation (a ++ x) c y _ hc
    rw [hb, List.append_assoc]

theorem IsEscaped.escape_unescape {text : List Char} (h : IsEscaped text) :
    escape (unescape text) = text := by
  induction text using stretchInduction with
  | nil => rfl
  | lone =>
      rcases h.of_backslash [] [] rfl rfl with ⟨c, rest, hnil, _⟩
      cases hnil
  | pair c rest ih =>
      rcases h.of_backslash [] (c :: rest) rfl rfl with ⟨d, _, heq, hd⟩
      cases heq
      have hrest : IsEscaped rest := of_append (a := ['\\', c]) h rfl
      rw [unescape, escape_cons_of_special (isSpecial_iff.mpr hd), ih hrest]
  | plain c rest hc ih =>
      have hrest : IsEscaped rest :=
        of_append (a := [c]) h (escapedAfter_plain hc [])
      have hplain : isSpecial c = false := by
        rw [← Bool.not_eq_true, isSpecial_iff, not_or]
        refine ⟨hc, ?_⟩
        intro hmem
        cases h.of_punctuation [] c rest rfl hmem
      rw [unescape_cons_of_ne hc, escape_cons_of_not_special hplain, ih hrest]

theorem escape_unescape_eq_iff {text : List Char} :
    escape (unescape text) = text <-> IsEscaped text := by
  constructor
  · intro h
    rw [← h]
    exact isEscaped_escape _
  · exact IsEscaped.escape_unescape

/-!
# Texts that stay as they are
-/

theorem length_escape (text : List Char) :
    (escape text).length = text.length + text.countP isSpecial := by
  induction text with
  | nil => rfl
  | cons c rest ih =>
      cases hc : isSpecial c with
      | true =>
          rw [escape_cons_of_special hc, List.countP_cons_of_pos hc]
          simp only [List.length_cons, ih]
          omega
      | false =>
          rw [escape_cons_of_not_special hc,
            List.countP_cons_of_neg (by rw [hc]; exact Bool.false_ne_true)]
          simp only [List.length_cons, ih]
          omega

theorem escape_eq_self_iff {text : List Char} :
    escape text = text <-> forall c, c ∈ text -> isSpecial c = false := by
  constructor
  · intro h c hc
    have hlength := length_escape text
    rw [h, Nat.left_eq_add, List.countP_eq_zero] at hlength
    rw [← Bool.not_eq_true]
    exact hlength c hc
  · exact escape_of_plain

theorem length_unescape_le (text : List Char) :
    (unescape text).length ≤ text.length := by
  induction text using stretchInduction with
  | nil => exact Nat.le_refl 0
  | lone => exact Nat.zero_le 1
  | pair c rest ih => exact Nat.le_succ_of_le (Nat.succ_le_succ ih)
  | plain c rest hc ih =>
      rw [unescape_cons_of_ne hc]
      exact Nat.succ_le_succ ih

theorem unescape_of_notMem {text : List Char} (h : '\\' ∉ text) :
    unescape text = text := by
  induction text with
  | nil => rfl
  | cons c text ih =>
      rw [List.mem_cons, not_or] at h
      rw [unescape_cons_of_ne (Ne.symm h.1), ih h.2]

theorem length_unescape_lt {text : List Char} (h : '\\' ∈ text) :
    (unescape text).length < text.length := by
  induction text using stretchInduction with
  | nil => cases h
  | lone => exact Nat.zero_lt_one
  | pair c rest _ =>
      exact Nat.lt_succ_of_le (Nat.succ_le_succ (length_unescape_le rest))
  | plain c rest hc ih =>
      rw [unescape_cons_of_ne hc]
      exact Nat.succ_lt_succ (ih (List.mem_of_ne_of_mem (Ne.symm hc) h))

theorem unescape_eq_self_iff {text : List Char} :
    unescape text = text <-> '\\' ∉ text := by
  constructor
  · intro h hmem
    have hlt := length_unescape_lt hmem
    rw [h] at hlt
    exact Nat.lt_irrefl _ hlt
  · exact unescape_of_notMem

/-!
# Texts that are passed on
-/

/-- A text that is passed on as it is, or a new one made of it. -/
inductive Copy where
  | same (text : List Char)
  | made (text : List Char)
  deriving DecidableEq, Repr

namespace Copy

def text : Copy -> List Char
  | same text => text
  | made text => text

/-- What is passed on for a text if a new one is made only where it differs. -/
def sparing (old new : List Char) : Copy :=
  if new = old then same old else made new

variable {old new : List Char}

theorem sparing_of_eq (h : new = old) : sparing old new = same old :=
  if_pos h

theorem sparing_of_ne (h : new ≠ old) : sparing old new = made new :=
  if_neg h

theorem text_sparing : (sparing old new).text = new := by
  by_cases h : new = old
  · rw [sparing_of_eq h, h]
    rfl
  · rw [sparing_of_ne h]
    rfl

theorem sparing_eq_same_iff : sparing old new = same old <-> new = old := by
  constructor
  · intro h
    by_cases heq : new = old
    · exact heq
    · rw [sparing_of_ne heq] at h
      cases h
  · exact sparing_of_eq

end Copy

def escapeInto (out : List Char) : List Char -> List Char
  | [] => out
  | c :: rest =>
      let out := if c == '\\' || punctuation.contains c then out ++ ['\\'] else out
      escapeInto (out ++ [c]) rest

def unescapeInto (out : List Char) : List Char -> List Char
  | [] => out
  | c :: rest =>
      if c = '\\' then
        match rest with
        | [] => out
        | next :: rest => unescapeInto (out ++ [next]) rest
      else unescapeInto (out ++ [c]) rest

def escapeCopy (text : List Char) : Copy :=
  if text.any (fun c => c == '\\' || punctuation.contains c) then
    .made (escapeInto [] text)
  else .same text

def unescapeCopy (text : List Char) : Copy :=
  if text.contains '\\' then .made (unescapeInto [] text) else .same text

theorem escapeInto_eq (out text : List Char) :
    escapeInto out text = out ++ escape text := by
  induction text generalizing out with
  | nil => exact (List.append_nil out).symm
  | cons c rest ih =>
      rw [escapeInto, ih, ← isSpecial_eq]
      cases hc : isSpecial c with
      | true => simp [escape_cons_of_special hc]
      | false => simp [escape_cons_of_not_special hc]

theorem unescapeInto_eq (out text : List Char) :
    unescapeInto out text = out ++ unescape text := by
  induction text using stretchInduction generalizing out with
  | nil => exact (List.append_nil out).symm
  | lone => exact (List.append_nil out).symm
  | pair c rest ih =>
      rw [unescapeInto, if_pos rfl, ih, unescape, List.append_assoc]
      rfl
  | plain c rest hc ih =>
      rw [unescapeInto.eq_def]
      simp only [if_neg hc, ih, unescape_cons_of_ne hc, List.append_assoc,
        List.singleton_append]

theorem escapeCopy_eq (text : List Char) :
    escapeCopy text = .sparing text (escape text) := by
  have hany : text.any (fun c => c == '\\' || punctuation.contains c) =
      text.any isSpecial := by
    congr 1
    funext c
    exact (isSpecial_eq c).symm
  rw [escapeCopy, hany, escapeInto_eq, List.nil_append]
  split
  next hsome =>
    rcases List.any_eq_true.mp hsome with ⟨c, hc, hspecial⟩
    refine (Copy.sparing_of_ne ?_).symm
    intro heq
    rw [escape_eq_self_iff.mp heq c hc] at hspecial
    cases hspecial
  next hnone =>
    refine (Copy.sparing_of_eq (escape_eq_self_iff.mpr ?_)).symm
    intro c hc
    rw [← Bool.not_eq_true]
    intro hspecial
    exact hnone (List.any_eq_true.mpr ⟨c, hc, hspecial⟩)

theorem unescapeCopy_eq (text : List Char) :
    unescapeCopy text = .sparing text (unescape text) := by
  rw [unescapeCopy, unescapeInto_eq, List.nil_append]
  split
  next hmem =>
    refine (Copy.sparing_of_ne ?_).symm
    intro heq
    exact unescape_eq_self_iff.mp heq (List.contains_iff_mem.mp hmem)
  next hnone =>
    refine (Copy.sparing_of_eq (unescape_eq_self_iff.mpr ?_)).symm
    intro hmem
    exact hnone (List.contains_iff_mem.mpr hmem)

end Text
end SearchQuery
