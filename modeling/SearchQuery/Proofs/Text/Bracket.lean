import SearchQuery.Proofs.Text.Escape

/-!
# Brackets of a text

A bracket counts unless a backslash escapes it.  The brackets that count nest
when every one of them is closed, none is closed before it is opened, and the
number of open ones stays within a limit.
-/

namespace SearchQuery

inductive Bracket where
  | opening
  | closing
  deriving DecidableEq, Repr

namespace Bracket

/-- Whether a sequence of brackets closes the `n` brackets that are open in
front of it and all of its own, with at most `limit` of them open at once. -/
def NestsWithin (limit : Nat) : Nat -> List Bracket -> Prop
  | n, [] => n = 0
  | n, opening :: rest => n + 1 ≤ limit ∧ NestsWithin limit (n + 1) rest
  | 0, closing :: _ => False
  | n + 1, closing :: rest => NestsWithin limit n rest

end Bracket

namespace Text

def bracket? (escaped : Bool) (c : Char) : Option Bracket :=
  if escaped then none
  else if c = '(' then some .opening
  else if c = ')' then some .closing
  else none

/-- The brackets of a text that count, given whether its first character is
escaped. -/
def brackets : Bool -> List Char -> List Bracket
  | _, [] => []
  | escaped, c :: rest =>
      (bracket? escaped c).toList ++ brackets (escapesNext escaped c) rest

theorem brackets_append (escaped : Bool) (a b : List Char) :
    brackets escaped (a ++ b) =
      brackets escaped a ++ brackets (escapedAfter escaped a) b := by
  induction a generalizing escaped with
  | nil => rfl
  | cons c rest ih =>
      rw [List.cons_append, brackets, brackets, ih, List.append_assoc]
      rfl

theorem bracket?_of_ne {c : Char} (ho : c ≠ '(') (hc : c ≠ ')')
    (escaped : Bool) : bracket? escaped c = none := by
  simp [bracket?, ho, hc]

theorem eq_of_bracket?_opening {escaped : Bool} {c : Char}
    (h : bracket? escaped c = some .opening) : c = '(' := by
  unfold bracket? at h
  split at h
  · cases h
  split at h
  next hc => exact hc
  split at h <;> cases h

theorem eq_of_bracket?_closing {escaped : Bool} {c : Char}
    (h : bracket? escaped c = some .closing) : c = ')' := by
  unfold bracket? at h
  split at h
  · cases h
  split at h
  · cases h
  split at h
  next hc => exact hc
  · cases h

theorem brackets_of_notMem {text : List Char} (ho : '(' ∉ text)
    (hc : ')' ∉ text) (escaped : Bool) : brackets escaped text = [] := by
  induction text generalizing escaped with
  | nil => rfl
  | cons c rest ih =>
      rw [List.mem_cons, not_or] at ho hc
      rw [brackets, bracket?_of_ne (Ne.symm ho.1) (Ne.symm hc.1), ih ho.2 hc.2]
      rfl

theorem brackets_escape (text : List Char) :
    brackets false (escape text) = [] := by
  induction text with
  | nil => rfl
  | cons c rest ih =>
      cases h : isSpecial c with
      | true =>
          rw [escape_cons_of_special h]
          simpa [brackets, bracket?, escapesNext] using ih
      | false =>
          have ho : c ≠ '(' := by
            intro hc
            rw [hc] at h
            cases h
          have hcl : c ≠ ')' := by
            intro hc
            rw [hc] at h
            cases h
          rw [escape_cons_of_not_special h, brackets, bracket?_of_ne ho hcl,
            escapesNext_of_ne (ne_backslash_of_not_special h), ih]
          rfl

theorem brackets_append_eq_nil_iff {escaped : Bool} {a b : List Char} :
    brackets escaped (a ++ b) = [] <->
      brackets escaped a = [] ∧ brackets (escapedAfter escaped a) b = [] := by
  rw [brackets_append, List.append_eq_nil_iff]

end Text

/-!
# Open brackets

A closing bracket closes the last bracket that is open.  In a sequence that nests
within a limit, no bracket closes that is not open, no more than the limit are
open at any point, and none is left open.
-/

namespace Bracket

def openAfter (n : Nat) (bs : List Bracket) : Nat :=
  bs.foldl (fun n b =>
    match b with
    | opening => n + 1
    | closing => n - 1) n

@[simp] theorem openAfter_opening (n : Nat) (bs : List Bracket) :
    openAfter n (opening :: bs) = openAfter (n + 1) bs := rfl

@[simp] theorem openAfter_closing (n : Nat) (bs : List Bracket) :
    openAfter n (closing :: bs) = openAfter (n - 1) bs := rfl

section Nests

variable {limit n : Nat} {bs p : List Bracket}

theorem prefix_of_nestsWithin (h : NestsWithin limit n bs) (hn : n ≤ limit)
    (hp : p <+: bs) :
    p.count closing ≤ n + p.count opening ∧ openAfter n p ≤ limit := by
  induction bs generalizing n p with
  | nil =>
      rw [List.prefix_nil.mp hp]
      exact ⟨Nat.zero_le _, hn⟩
  | cons b bs ih =>
      rcases List.prefix_cons_iff.mp hp with rfl | ⟨t, rfl, ht⟩
      · exact ⟨Nat.zero_le _, hn⟩
      cases b with
      | opening =>
          rcases ih h.2 h.1 ht with ⟨hcount, hopen⟩
          refine ⟨?_, hopen⟩
          simp only [List.count_cons, beq_iff_eq, reduceCtorEq, if_false,
            if_true]
          omega
      | closing =>
          cases n with
          | zero => exact h.elim
          | succ n =>
              rcases ih h (Nat.le_of_succ_le hn) ht with ⟨hcount, hopen⟩
              refine ⟨?_, hopen⟩
              simp only [List.count_cons, beq_iff_eq, reduceCtorEq, if_false,
                if_true]
              omega

theorem count_of_nestsWithin (h : NestsWithin limit n bs) :
    bs.count closing = n + bs.count opening := by
  induction bs generalizing n with
  | nil =>
      have hn : n = 0 := h
      rw [hn]
      rfl
  | cons b bs ih =>
      cases b with
      | opening =>
          have hcount := ih h.2
          simp only [List.count_cons, beq_iff_eq, reduceCtorEq, if_false,
            if_true]
          omega
      | closing =>
          cases n with
          | zero => exact h.elim
          | succ n =>
              have hcount := ih h
              simp only [List.count_cons, beq_iff_eq, reduceCtorEq, if_false,
                if_true]
              omega

theorem nestsWithin_of_openAfter_le {m : Nat} (h : NestsWithin limit n bs)
    (hm : forall p, p <+: bs -> openAfter n p ≤ m) : NestsWithin m n bs := by
  induction bs generalizing n with
  | nil => exact h
  | cons b bs ih =>
      have hbehind : forall p, p <+: bs -> openAfter n (b :: p) ≤ m := by
        intro p hp
        exact hm (b :: p) (List.cons_prefix_cons.mpr ⟨rfl, hp⟩)
      cases b with
      | opening => exact ⟨hbehind [] List.nil_prefix, ih h.2 hbehind⟩
      | closing =>
          cases n with
          | zero => exact h.elim
          | succ n => exact ih h hbehind

end Nests

end Bracket

end SearchQuery
