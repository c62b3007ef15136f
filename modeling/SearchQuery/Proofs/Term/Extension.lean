import SearchQuery.Proofs.Dangling
import SearchQuery.Proofs.Text.Codec

/-!
# Fragments that are extended

Text in which nothing escapes and nothing compares can only lengthen the value of a
fragment, or its free text.  So with such text behind it a fragment is never read as
the element that it is read as alone.
-/

namespace SearchQuery

/-!
# Inert text
-/

namespace Text

/-- Text in which nothing escapes and nothing compares. -/
def Inert (text : List Char) : Prop :=
  forall c, c ∈ text -> c ∉ ['\\', '=', '<', '>', '@']

theorem unescape_append {b : List Char} (h : '\\' ∉ b) (a : List Char) :
    unescape (a ++ b) = unescape a ++ b := by
  rw [unescape_append_eq]
  cases escapedAfter false a with
  | false => rw [unescapeFrom_false, unescape_of_notMem h]
  | true =>
      -- A backslash at the end of the front escapes the first character behind it.
      cases b with
      | nil => rfl
      | cons c b =>
          rw [List.mem_cons, not_or] at h
          rw [unescapeFrom, unescape_of_notMem h.2]

theorem Inert.backslash_notMem {text : List Char} (h : Inert text) :
    '\\' ∉ text := by
  intro hmem
  exact h _ hmem List.mem_cons_self

end Text

/-!
# The characters of a name
-/

namespace Text

def blankCodes : List Nat :=
  [0x09, 0x0A, 0x0B, 0x0C, 0x0D, 0x20, 0x85, 0xA0, 0x1680, 0x2000, 0x2001, 0x2002,
    0x2003, 0x2004, 0x2005, 0x2006, 0x2007, 0x2008, 0x2009, 0x200A, 0x2028, 0x2029,
    0x202F, 0x205F, 0x3000]

theorem toNat_mem_blankCodes {c : Char} (h : isBlank c = true) :
    c.toNat ∈ blankCodes := by
  simp only [isBlank, Bool.or_eq_true, Bool.and_eq_true, decide_eq_true_eq,
    beq_iff_eq] at h
  simp only [blankCodes, List.mem_cons, List.not_mem_nil, or_false]
  omega

end Text

namespace Split

theorem not_blank_of_isPath {c : Char} (h : isPath c = true) :
    Text.isBlank c = false := by
  rw [← Bool.not_eq_true]
  intro hblank
  have hcode := Text.toNat_mem_blankCodes hblank
  have hall : Text.blankCodes.all (fun n => !isPath (Char.ofNat n)) = true := by
    decide
  have hpath := List.all_eq_true.mp hall c.toNat hcode
  rw [Char.ofNat_toNat, h] at hpath
  cases hpath

theorem plain_of_isPath {c : Char} (h : isPath c = true) :
    c ∉ ['\\', '=', '<', '>'] := by
  intro hc
  simp only [List.mem_cons, List.not_mem_nil, or_false] at hc
  rcases hc with rfl | rfl | rfl | rfl <;> cases h

end Split

namespace Shape

variable {shape : Shape} {text tail : List Char} {s : Split}

theorem mem_of_compares {c : Char} (h : shape.Compares c) :
    c ∈ ['=', '<', '>', '@'] := by
  cases shape with
  | technical => exact h
  | _ => exact List.mem_append_left ['@'] h

theorem isPath_of_mem (hshape : shape ≠ technical)
    (hname : forall c, c ∈ s.name -> shape.Allows c) :
    forall c, c ∈ shape.lead ++ s.name -> Split.isPath c = true := by
  intro c hc
  rcases List.mem_append.mp hc with hc | hc
  · have hall : shape.lead.all Split.isPath = true := by
      cases shape with
      | technical => exact absurd rfl hshape
      | _ => rfl
    exact List.all_eq_true.mp hall c hc
  · have hallows := hname c hc
    cases shape with
    | statement => exact isPath_iff.mpr hallows
    | collection => exact isPath_iff.mpr hallows
    | technical => exact absurd rfl hshape
    | field => exact Address.isPath_of_isName (isName_iff.mpr hallows)

/-!
# Decompositions of an extended text
-/

theorem Decomposes.exists_operator_eq_concat (h : shape.Decomposes text s) :
    exists front c, s.operator = front ++ [c] ∧ c ∈ ['=', '<', '>', '@'] := by
  rcases List.eq_nil_or_concat s.operator with hnil | ⟨front, c, hoperator⟩
  · have hlength := h.length
    simp [hnil] at hlength
  · rw [List.concat_eq_append] at hoperator
    refine ⟨front, c, hoperator, mem_of_compares (h.compares c ?_)⟩
    rw [hoperator]
    simp

theorem Decomposes.append (h : shape.Decomposes text s) (tail : List Char) :
    shape.Decomposes (text ++ tail) { s with value := s.value ++ tail } where
  text_eq := by
    rw [h.text_eq]
    simp only [List.append_assoc]
  name_ne_nil := h.name_ne_nil
  allows := h.allows
  compares := h.compares
  length := h.length
  value_ne_nil := by
    intro hnil
    exact h.value_ne_nil (List.append_eq_nil_iff.mp hnil).1

theorem Decomposes.exists_value_eq_append (htail : Text.Inert tail)
    (h : shape.Decomposes (text ++ tail) s) :
    exists value, s.value = value ++ tail ∧
      text = shape.lead ++ (s.name ++ (shape.closer ++ (s.operator ++ value))) := by
  rcases h.exists_operator_eq_concat with ⟨front, c, hoperator, hc⟩
  have htext : text ++ tail =
      (shape.lead ++ (s.name ++ (shape.closer ++ front)) ++ [c]) ++ s.value := by
    rw [h.text_eq, hoperator]
    simp only [List.append_assoc]
  rcases List.append_eq_append_iff.mp htext with
    ⟨x, hhead, hrest⟩ | ⟨value, hhead, hrest⟩
  · rcases List.eq_nil_or_concat x with rfl | ⟨x, d, rfl⟩
    · refine ⟨[], hrest.symm, ?_⟩
      rw [hoperator, List.append_nil, ← List.append_nil text, ← hhead]
      simp only [List.append_assoc]
    · have hlast := congrArg List.getLast? hhead
      simp only [List.concat_eq_append, ← List.append_assoc, List.getLast?_concat,
        Option.some.injEq] at hlast
      have hmem : c ∈ tail := by
        rw [hrest, hlast]
        simp
      exact absurd (List.mem_cons_of_mem _ hc) (htail c hmem)
  · refine ⟨value, hrest, ?_⟩
    rw [hhead, hoperator]
    simp only [List.append_assoc]

end Shape

theorem Element.eq_of_freeText_eq {fallback m n : Bool} {a b : String}
    (h : freeText fallback a m = freeText fallback b n) : a = b := by
  cases fallback with
  | true =>
      injection h with h
      injection h with h
      injection h with h
      injection h
  | false =>
      injection h with h
      injection h

namespace Fragment

variable {settings : Settings} {text tail : List Char} {negated : Bool}
  {e : Element}

theorem cases_of_read_eq_ok (h : read settings text negated = .ok e) :
    (exists shape s address, shape.Decides text s ∧
      Address.Names settings.catalog shape s.name (.ok address) ∧
      e = .term
        { address := address
          operator := Operator.ofToken s.operator
          value := String.ofList (Text.unescape s.value)
          negated := negated }) ∨
      (forall shape s, ¬ Shape.Decomposes shape text s) ∧
        (forall cause, ¬ Lacks text cause) ∧
        e = .freeText settings.fulltextFallback
          (String.ofList (Text.unescape text)) negated := by
  have hmeans := means_read settings text negated
  rw [h] at hmeans
  cases hmeans with
  | term hdecides hnames => exact Or.inl ⟨_, _, _, hdecides, hnames, rfl⟩
  | freeText _ hnone hlacks => exact Or.inr ⟨hnone, hlacks, rfl⟩

/-- What a term has in front of its value is no fragment of its own. -/
theorem exists_lacks {shape : Shape} {s : Split}
    (h : shape.Decomposes (text ++ s.value) s) :
    exists cause, Lacks text cause := by
  have htext : text =
      shape.lead ++ (s.name ++ (shape.closer ++ s.operator)) := by
    apply List.append_cancel_right
    rw [h.text_eq]
    simp only [List.append_assoc]
  by_cases hshape : shape = .technical
  · have hlead : Shape.technical.lead <+: text := by
      rw [htext, hshape]
      exact List.prefix_append _ _
    by_cases hvalue : LacksValue text
    · exact ⟨_, Lacks.missingValue hvalue⟩
    · exact ⟨_, Lacks.malformedTechnical hvalue hlead⟩
  · rcases Shape.technical_or_isNamed shape with htechnical | ⟨isNameChar, hnamed⟩
    · exact absurd htechnical hshape
    have hpath := Shape.isPath_of_mem hshape h.allows
    refine ⟨_, Lacks.missingValue ?_⟩
    rw [htext, hnamed.closer_eq, List.nil_append, ← List.append_assoc]
    apply lacksValue_append _ _ _ h.length
    · simp [h.name_ne_nil]
    · intro c hc
      exact ⟨Split.not_blank_of_isPath (hpath c hc),
        Split.plain_of_isPath (hpath c hc)⟩
    · intro c hc
      exact Shape.isComparison_iff.mp
        ((hnamed.compares_iff c).mp (h.compares c hc))

theorem unescape_value_ne {shape : Shape} {s s' : Split}
    (htail : Text.Inert tail) (hne : tail ≠ []) (h : shape.Decides text s)
    (h' : shape.Decides (text ++ tail) s') :
    Text.unescape s.value ≠ Text.unescape s'.value := by
  rcases h'.exists_value_eq_append htail with ⟨value, hvalue, htext⟩
  rw [hvalue, Text.unescape_append htail.backslash_notMem]
  intro heq
  by_cases hnil : value = []
  · -- The value in the text alone ends with a character of the operator.
    rcases h'.exists_operator_eq_concat with ⟨front, c, hoperator, hc⟩
    rcases List.eq_nil_or_concat s.value with hvalue | ⟨x, d, hvalue⟩
    · exact h.value_ne_nil hvalue
    rw [List.concat_eq_append] at hvalue
    have hlast := congrArg List.getLast? (htext.symm.trans h.text_eq)
    simp only [hnil, hoperator, hvalue, List.append_nil, ← List.append_assoc,
      List.getLast?_concat, Option.some.injEq] at hlast
    have hslash : '\\' ∉ [c] := by
      intro hmem
      rw [← List.mem_singleton.mp hmem] at hc
      revert hc
      decide
    rw [hvalue, ← hlast, Text.unescape_append hslash, hnil] at heq
    have hmem : c ∈ tail := by
      rw [show tail = Text.unescape x ++ [c] from heq.symm]
      simp
    exact htail c hmem (List.mem_cons_of_mem _ hc)
  · -- Both texts have the same name and operator, so one value extends the other.
    have hshort : shape.Decomposes text ⟨s'.name, s'.operator, value⟩ :=
      ⟨htext, h'.name_ne_nil, h'.allows, h'.compares, h'.length, hnil⟩
    have hle := h.longest _ hshort
    have hge := h'.longest _ (h.toDecomposes.append tail)
    dsimp only at hle hge
    have hsame := hshort.eq_of_length h.toDecomposes (by dsimp only; omega)
      (by dsimp only; omega)
    rw [← hsame] at heq
    exact hne (List.self_eq_append_right.mp heq)

theorem read_append_ne (htail : Text.Inert tail) (hne : tail ≠ [])
    (h : read settings text negated = .ok e) :
    read settings (text ++ tail) negated ≠ .ok e := by
  intro happend
  rcases cases_of_read_eq_ok h with
    ⟨shape, s, address, hdecides, hnames, rfl⟩ | ⟨hnone, hlacks, rfl⟩
  · rcases cases_of_read_eq_ok happend with
      ⟨shape', s', address', hdecides', hnames', heq⟩ | ⟨hnone, _⟩
    · injection heq with heq
      injection heq with haddress _ hvalue
      rw [← haddress] at hnames'
      rw [← Address.ofName_eq_iff] at hnames hnames'
      rw [(Address.shape_of_ofName hnames').1,
        ← (Address.shape_of_ofName hnames).1] at hdecides'
      exact unescape_value_ne htail hne hdecides hdecides'
        (String.ofList_injective hvalue)
    · exact hnone _ _ (hdecides.toDecomposes.append tail)
  · rcases cases_of_read_eq_ok happend with
      ⟨shape, s, _, hdecides, _⟩ | ⟨_, _, heq⟩
    · rcases hdecides.exists_value_eq_append htail with ⟨value, hvalue, htext⟩
      by_cases hnil : value = []
      · rw [hnil, List.nil_append] at hvalue
        have hdecomposes := hdecides.toDecomposes
        rw [← hvalue] at hdecomposes
        rcases exists_lacks hdecomposes with ⟨cause, hcause⟩
        exact hlacks cause hcause
      · exact hnone shape ⟨s.name, s.operator, value⟩
          ⟨htext, hdecides.name_ne_nil, hdecides.allows, hdecides.compares,
            hdecides.length, hnil⟩
    · have hvalue := String.ofList_injective (Element.eq_of_freeText_eq heq)
      rw [Text.unescape_append htail.backslash_notMem] at hvalue
      exact hne (List.self_eq_append_right.mp hvalue)

end Fragment

end SearchQuery
