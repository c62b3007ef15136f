import SearchQuery.Proofs.Text.Escape
import SearchQuery.Chain

/-!
# Stop words in a text

The word of a relation between two spaces ends a term wherever it stands, and
behind a single space it is cut off the end of a term.  This module says how
either can come about when a text grows or is escaped.
-/

namespace SearchQuery

namespace Relation

def ending (r : Relation) : List Char :=
  ' ' :: r.keyword.toList

def stopWord (r : Relation) : List Char :=
  r.ending ++ [' ']

theorem stopWord_ne_nil (r : Relation) : r.stopWord ≠ [] := by
  cases r <;> decide

theorem space_notMem_keyword (r : Relation) : ' ' ∉ r.keyword.toList := by
  cases r <;> decide

theorem not_special_of_mem_ending {r : Relation} {c : Char}
    (h : c ∈ r.ending) : Text.isSpecial c = false := by
  have hall : r.ending.all (fun d => !Text.isSpecial d) = true := by
    cases r <;> decide
  simpa using List.all_eq_true.mp hall c h

theorem not_special_of_mem_stopWord {r : Relation} {c : Char}
    (h : c ∈ r.stopWord) : Text.isSpecial c = false := by
  rcases List.mem_append.mp h with hc | hc
  · exact not_special_of_mem_ending hc
  · rw [List.mem_singleton.mp hc]
    rfl

end Relation

namespace Text

/-- No stop word stands in a text. -/
def NoStopWord (text : List Char) : Prop :=
  forall r : Relation, ¬ r.stopWord <:+: text

def NoEnding (text : List Char) : Prop :=
  forall r : Relation, ¬ r.ending <:+ text

theorem noStopWord_nil : NoStopWord [] := by
  intro r h
  exact r.stopWord_ne_nil (List.infix_nil.mp h)

theorem NoStopWord.of_infix {a b : List Char} (h : NoStopWord b)
    (hab : a <:+: b) : NoStopWord a := by
  intro r hr
  exact h r (hr.trans hab)

theorem NoStopWord.of_append {a b : List Char} (h : NoStopWord (a ++ b)) :
    NoStopWord a :=
  h.of_infix (List.prefix_append a b).isInfix

theorem stopWord_suffix_concat_iff {r : Relation} {text : List Char}
    {c : Char} :
    r.stopWord <:+ text ++ [c] <-> c = ' ' ∧ r.ending <:+ text := by
  constructor
  · intro hparts
    rcases hparts with ⟨front, h⟩
    rw [Relation.stopWord, ← List.append_assoc] at h
    rcases List.append_inj' h rfl with ⟨hfront, hc⟩
    exact ⟨(List.singleton_inj.mp hc).symm, front, hfront⟩
  · intro hparts
    rcases hparts with ⟨rfl, front, rfl⟩
    exact ⟨front, by rw [Relation.stopWord, List.append_assoc]⟩

theorem noStopWord_concat_iff {text : List Char} {c : Char} :
    NoStopWord (text ++ [c]) <->
      NoStopWord text ∧ (c = ' ' -> NoEnding text) := by
  constructor
  · intro h
    refine ⟨h.of_append, ?_⟩
    intro hc r hr
    apply h r
    exact (stopWord_suffix_concat_iff.mpr ⟨hc, hr⟩).isInfix
  · intro hparts r hr
    rcases hparts with ⟨h, hending⟩
    rcases List.infix_concat_iff.mp hr with hsuffix | hinfix
    · rcases stopWord_suffix_concat_iff.mp hsuffix with ⟨hc, hr⟩
      exact hending hc r hr
    · exact h r hinfix

/-- The first stop word of a text is the first one to be completed. -/
theorem exists_first_stopWord {text : List Char} (h : ¬ NoStopWord text) :
    exists front s rest, text = front ++ (Relation.stopWord s ++ rest) ∧
      NoStopWord (front ++ s.ending) := by
  induction hn : text.length generalizing text with
  | zero =>
      rw [List.length_eq_zero_iff.mp hn] at h
      exact absurd noStopWord_nil h
  | succ n ih =>
      rcases List.eq_nil_or_concat text with rfl | ⟨text, c, rfl⟩
      · cases hn
      rw [List.concat_eq_append] at h hn ⊢
      by_cases htext : NoStopWord text
      · rw [noStopWord_concat_iff, not_and] at h
        rcases Classical.not_imp.mp (h htext) with ⟨rfl, hend⟩
        rcases Classical.not_forall.mp hend with ⟨s, hs⟩
        rcases Classical.not_not.mp hs with ⟨front, rfl⟩
        exact ⟨front, s, [], by simp [Relation.stopWord], htext⟩
      · have hlength : text.length = n := by simpa using hn
        rcases ih htext hlength with ⟨front, s, rest, rfl, hfront⟩
        exact ⟨front, s, rest ++ [c], by simp, hfront⟩

theorem NoStopWord.append_of_notMem {a b : List Char} (h : NoStopWord a)
    (hb : ' ' ∉ b) : NoStopWord (a ++ b) := by
  induction b generalizing a with
  | nil => rwa [List.append_nil]
  | cons c b ih =>
      rw [List.mem_cons, not_or] at hb
      rw [List.append_cons]
      apply ih _ hb.2
      rw [noStopWord_concat_iff]
      exact ⟨h, fun hc => absurd hc.symm hb.1⟩

theorem noStopWord_of_notMem {text : List Char} (h : ' ' ∉ text) :
    NoStopWord text :=
  noStopWord_nil.append_of_notMem h

theorem noEnding_of_notMem {text : List Char} (h : ' ' ∉ text) :
    NoEnding text := by
  intro r hr
  exact h (hr.subset List.mem_cons_self)

theorem NoStopWord.append_ending {text : List Char} (h : NoStopWord text)
    (hend : NoEnding text) (r : Relation) : NoStopWord (text ++ r.ending) := by
  rw [Relation.ending, List.append_cons]
  apply NoStopWord.append_of_notMem _ r.space_notMem_keyword
  rw [noStopWord_concat_iff]
  exact ⟨h, fun _ => hend⟩

theorem infix_append_cons_iff {word a b : List Char} {c : Char}
    (hne : word ≠ []) (hc : c ∉ word) :
    word <:+: a ++ c :: b <-> word <:+: a ∨ word <:+: b := by
  constructor
  · intro h
    rcases List.infix_append_iff.mp h with h | h | ⟨x, y, rfl, hx, hy⟩
    · exact Or.inl h
    · rcases List.infix_cons_iff.mp h with h | h
      · rcases List.prefix_cons_iff.mp h with rfl | ⟨tail, rfl, _⟩
        · exact absurd rfl hne
        · exact absurd List.mem_cons_self hc
      · exact Or.inr h
    · rcases List.prefix_cons_iff.mp hy with rfl | ⟨tail, rfl, _⟩
      · rw [List.append_nil]
        exact Or.inl hx.isInfix
      · apply absurd _ hc
        exact List.mem_append_right x List.mem_cons_self
  · intro hcases
    rcases hcases with h | h
    · exact h.trans (List.prefix_append a (c :: b)).isInfix
    · apply h.trans
      exact ((List.suffix_cons c b).trans (List.suffix_append a _)).isInfix

theorem suffix_append_cons_iff {word a b : List Char} {c : Char}
    (hc : c ∉ word) : word <:+ a ++ c :: b <-> word <:+ b := by
  constructor
  · intro hparts
    rcases hparts with ⟨front, h⟩
    rcases List.append_eq_append_iff.mp h with ⟨x, _, hword⟩ | ⟨x, _, hcb⟩
    · apply absurd _ hc
      rw [hword]
      exact List.mem_append_right x List.mem_cons_self
    · rcases x with _ | ⟨d, x⟩
      · apply absurd _ hc
        rw [← List.nil_append word, ← hcb]
        exact List.mem_cons_self
      · injection hcb with _ hb
        exact ⟨x, hb.symm⟩
  · intro h
    exact h.trans ((List.suffix_cons c b).trans (List.suffix_append a _))

theorem noStopWord_append_cons_iff {c : Char}
    (hc : forall r : Relation, c ∉ r.stopWord) {a b : List Char} :
    NoStopWord (a ++ c :: b) <-> NoStopWord a ∧ NoStopWord b := by
  constructor
  · intro h
    refine ⟨h.of_append, ?_⟩
    intro r hr
    apply h r
    exact (infix_append_cons_iff r.stopWord_ne_nil (hc r)).mpr (Or.inr hr)
  · intro hparts r hr
    rcases hparts with ⟨ha, hb⟩
    rcases (infix_append_cons_iff r.stopWord_ne_nil (hc r)).mp hr with hr | hr
    · exact ha r hr
    · exact hb r hr

theorem noEnding_append_cons_iff {c : Char}
    (hc : forall r : Relation, c ∉ r.ending) {a b : List Char} :
    NoEnding (a ++ c :: b) <-> NoEnding b := by
  constructor
  · intro h r hr
    exact h r ((suffix_append_cons_iff (hc r)).mpr hr)
  · intro h r hr
    exact h r ((suffix_append_cons_iff (hc r)).mp hr)

theorem noStopWord_escape_iff {text : List Char} :
    NoStopWord (escape text) <-> NoStopWord text := by
  constructor
  · intro h r hr
    apply h r
    exact (infix_escape_iff r.stopWord_ne_nil
      (fun _ => Relation.not_special_of_mem_stopWord)).mpr hr
  · intro h r hr
    apply h r
    exact (infix_escape_iff r.stopWord_ne_nil
      (fun _ => Relation.not_special_of_mem_stopWord)).mp hr

theorem noEnding_escape_iff {text : List Char} :
    NoEnding (escape text) <-> NoEnding text := by
  have hne : forall r : Relation, r.ending ≠ [] := by
    intro r
    cases r <;> decide
  constructor
  · intro h r hr
    apply h r
    exact (suffix_escape_iff (hne r)
      (fun _ => Relation.not_special_of_mem_ending)).mpr hr
  · intro h r hr
    apply h r
    exact (suffix_escape_iff (hne r)
      (fun _ => Relation.not_special_of_mem_ending)).mp hr

end Text

end SearchQuery
