import SearchQuery.Text.Form

/-!
# Form encodings

A text has many form encodings: a space has three spellings, and any character may
be written as percent escapes.  Whatever the spelling, once each `+` is a space the
escapes stand for the bytes of the text.  An encoder and a decoder are known only
by their laws here, which `formEncode` and `percentDecode?` obey.
-/

namespace SearchQuery
namespace Text

/-!
## Percent escapes
-/

def HexByte (hi lo : Char) (b : UInt8) : Prop :=
  hexValue? hi = some (b.toNat / 16) ∧ hexValue? lo = some (b.toNat % 16)

/-- The bytes that a text with percent escapes stands for.  A character that is not
the `%` of an escape stands for its own bytes. -/
inductive PercentCodes : List Char -> List UInt8 -> Prop where
  | nil : PercentCodes [] []
  | escape {hi lo : Char} {b : UInt8} {text : List Char} {bytes : List UInt8} :
      HexByte hi lo b -> PercentCodes text bytes ->
      PercentCodes ('%' :: hi :: lo :: text) (b :: bytes)
  | char {c : Char} {text : List Char} {bytes : List UInt8} :
      (forall hi lo b, c = '%' -> [hi, lo] <+: text -> ¬ HexByte hi lo b) ->
      PercentCodes text bytes ->
      PercentCodes (c :: text) (String.utf8EncodeChar c ++ bytes)

theorem PercentCodes.cons_of_ne {c : Char} {text : List Char}
    {bytes : List UInt8} (hc : c ≠ '%') (h : PercentCodes text bytes) :
    PercentCodes (c :: text) (String.utf8EncodeChar c ++ bytes) := by
  apply char _ h
  intro hi lo b hpercent
  exact absurd hpercent hc

inductive Escapes : List UInt8 -> List Char -> Prop where
  | nil : Escapes [] []
  | cons {hi lo : Char} {b : UInt8} {bytes : List UInt8} {text : List Char} :
      HexByte hi lo b -> Escapes bytes text ->
      Escapes (b :: bytes) ('%' :: hi :: lo :: text)

theorem Escapes.percentCodes_append {front : List Char} {b : List UInt8}
    (hfront : Escapes b front) {text : List Char} {bytes : List UInt8}
    (h : PercentCodes text bytes) : PercentCodes (front ++ text) (b ++ bytes) := by
  induction hfront with
  | nil => exact h
  | cons hbyte _ ih => exact PercentCodes.escape hbyte ih

/-!
## Spaces
-/

theorem plusToSpace_of_ne {c : Char} (hc : c ≠ '+') : plusToSpace c = c :=
  if_neg hc

theorem plusToSpace_of_hexValue? {c : Char} {n : Nat} (h : hexValue? c = some n) :
    plusToSpace c = c := by
  apply plusToSpace_of_ne
  intro hc
  rw [hc] at h
  cases h

theorem Escapes.map_plusToSpace {bytes : List UInt8} {text : List Char}
    (h : Escapes bytes text) : text.map plusToSpace = text := by
  induction h with
  | nil => rfl
  | cons hbyte _ ih =>
      rw [List.map_cons, List.map_cons, List.map_cons,
        plusToSpace_of_hexValue? hbyte.1, plusToSpace_of_hexValue? hbyte.2, ih,
        plusToSpace_of_ne (by decide)]

/-!
## The encodings of a text
-/

/-- The form encodings of a text.  Every character may be written as the escapes of
its bytes.  A space may also be a `+`, and each character but `+` and `%` may stand
for itself. -/
inductive FormEncodes : List Char -> List Char -> Prop where
  | nil : FormEncodes [] []
  | plus {text encoded : List Char} : FormEncodes text encoded ->
      FormEncodes (' ' :: text) ('+' :: encoded)
  | raw {c : Char} {text encoded : List Char} : c ≠ '+' -> c ≠ '%' ->
      FormEncodes text encoded -> FormEncodes (c :: text) (c :: encoded)
  | escaped {c : Char} {front text encoded : List Char} :
      Escapes (String.utf8EncodeChar c) front -> FormEncodes text encoded ->
      FormEncodes (c :: text) (front ++ encoded)

theorem FormEncodes.percentCodes {text encoded : List Char}
    (h : FormEncodes text encoded) :
    PercentCodes (encoded.map plusToSpace) (utf8 text) := by
  induction h with
  | nil => exact PercentCodes.nil
  | plus _ ih =>
      rw [List.map_cons, utf8_cons]
      exact ih.cons_of_ne (by decide)
  | raw hplus hpercent _ ih =>
      rw [List.map_cons, utf8_cons, plusToSpace_of_ne hplus]
      exact ih.cons_of_ne hpercent
  | escaped hfront _ ih =>
      rw [List.map_append, utf8_cons, hfront.map_plusToSpace]
      exact hfront.percentCodes_append ih

/-!
## Encoders
-/

/-- The laws of a form encoder: byte by byte, a plain byte is kept, a space is `+`
and every other byte is escaped. -/
structure IsFormEncoder (encode : List UInt8 -> List Char) : Prop where
  nil : encode [] = []
  cons (b : UInt8) (bytes : List UInt8) :
    encode (b :: bytes) = encode [b] ++ encode bytes
  plain {b : UInt8} : isFormPlain (Char.ofUInt8 b) = true ->
    encode [b] = [Char.ofUInt8 b]
  space : encode [0x20] = ['+']
  other {b : UInt8} : isFormPlain (Char.ofUInt8 b) = false -> b ≠ 0x20 ->
    encode [b] = percentByte b

theorem isFormEncoder_formEncode : IsFormEncoder formEncode where
  nil := rfl
  cons b bytes := by
    rw [formEncode, formEncode, formEncode, List.flatMap_cons,
      List.flatMap_singleton]
  plain h := by
    rw [formEncode, List.flatMap_singleton, formEncodeByte, if_pos h]
  space := rfl
  other hplain hspace := by
    rw [formEncode, List.flatMap_singleton, formEncodeByte,
      if_neg (ne_true_of_eq_false hplain), if_neg hspace]

theorem val_le_of_isAlphanum {c : Char} (h : c.isAlphanum = true) :
    c.val ≤ 127 := by
  rcases Bool.or_eq_true_iff.mp h with halpha | hdigit
  · rcases Bool.or_eq_true_iff.mp halpha with hupper | hlower
    · have hz : c.val ≤ 'Z'.val := (of_decide_eq_true hupper).2
      exact UInt32.le_trans hz (by decide)
    · have hz : c.val ≤ 'z'.val :=
        of_decide_eq_true (Bool.and_eq_true_iff.mp hlower).2
      exact UInt32.le_trans hz (by decide)
  · have hnine : c.val ≤ '9'.val :=
      of_decide_eq_true (Bool.and_eq_true_iff.mp hdigit).2
    exact UInt32.le_trans hnine (by decide)

theorem utf8Size_of_isFormPlain {c : Char} (h : isFormPlain c = true) :
    c.utf8Size = 1 := by
  simp only [isFormPlain, Bool.or_eq_true, beq_iff_eq] at h
  rcases h with (((hword | rfl) | rfl) | rfl) | rfl
  · exact Char.utf8Size_eq_one_iff.mpr (val_le_of_isAlphanum hword)
  · rfl
  · rfl
  · rfl
  · rfl

theorem utf8EncodeChar_ofUInt8 {b : UInt8}
    (h : isFormPlain (Char.ofUInt8 b) = true) :
    String.utf8EncodeChar (Char.ofUInt8 b) = [b] := by
  rw [String.utf8EncodeChar_eq_singleton (utf8Size_of_isFormPlain h)]
  exact congrArg List.singleton (UInt8.toUInt8_toUInt32 b)

theorem ne_of_isFormPlain {c d : Char} (h : isFormPlain c = true)
    (hd : isFormPlain d = false) : c ≠ d := by
  intro hcd
  rw [hcd, hd] at h
  cases h

theorem isFormPlain_hexDigit {n : Nat} (h : n < 16) :
    isFormPlain (hexDigit n) = true := by
  have hall : forall m, m < 16 -> isFormPlain (hexDigit m) = true := by decide
  exact hall n h

theorem hexByte_hexDigit (b : UInt8) :
    HexByte (hexDigit (b.toNat / 16)) (hexDigit (b.toNat % 16)) b := by
  have hb := b.toNat_lt
  exact ⟨hexValue?_hexDigit (by omega), hexValue?_hexDigit (by omega)⟩

theorem escapes_percentByte (b : UInt8) : Escapes [b] (percentByte b) :=
  Escapes.cons (hexByte_hexDigit b) Escapes.nil

namespace IsFormEncoder

variable {encode : List UInt8 -> List Char} (h : IsFormEncoder encode)
include h

theorem singleton_cases (b : UInt8) :
    (isFormPlain (Char.ofUInt8 b) = true ∧ encode [b] = [Char.ofUInt8 b]) ∨
      (b = 0x20 ∧ encode [b] = ['+']) ∨ encode [b] = percentByte b := by
  cases hplain : isFormPlain (Char.ofUInt8 b) with
  | true => exact Or.inl ⟨rfl, h.plain hplain⟩
  | false =>
      by_cases hspace : b = 0x20
      · exact Or.inr (Or.inl ⟨hspace, hspace ▸ h.space⟩)
      · exact Or.inr (Or.inr (h.other hplain hspace))

theorem percentCodes (bytes : List UInt8) :
    PercentCodes ((encode bytes).map plusToSpace) bytes := by
  induction bytes with
  | nil =>
      rw [h.nil]
      exact PercentCodes.nil
  | cons b bytes ih =>
      rw [h.cons, List.map_append]
      rcases h.singleton_cases b with ⟨hplain, hb⟩ | ⟨hspace, hb⟩ | hb
      · have hplus : Char.ofUInt8 b ≠ '+' := ne_of_isFormPlain hplain rfl
        have hpercent : Char.ofUInt8 b ≠ '%' := ne_of_isFormPlain hplain rfl
        rw [hb, List.map_singleton, plusToSpace_of_ne hplus]
        have hcons := ih.cons_of_ne hpercent
        rw [utf8EncodeChar_ofUInt8 hplain] at hcons
        exact hcons
      · rw [hb, hspace]
        exact ih.cons_of_ne (c := ' ') (by decide)
      · rw [hb, (escapes_percentByte b).map_plusToSpace]
        exact (escapes_percentByte b).percentCodes_append ih

theorem isFormPlain_of_mem {bytes : List UInt8} {c : Char}
    (hc : c ∈ encode bytes) : isFormPlain c = true ∨ c = '+' ∨ c = '%' := by
  induction bytes with
  | nil =>
      rw [h.nil] at hc
      cases hc
  | cons b bytes ih =>
      rw [h.cons, List.mem_append] at hc
      rcases hc with hc | hc
      · rcases h.singleton_cases b with ⟨hplain, hb⟩ | ⟨_, hb⟩ | hb
        · rw [hb, List.mem_singleton] at hc
          exact Or.inl (hc ▸ hplain)
        · rw [hb, List.mem_singleton] at hc
          exact Or.inr (Or.inl hc)
        · have hlt := b.toNat_lt
          have hhi := isFormPlain_hexDigit (n := b.toNat / 16) (by omega)
          have hlo := isFormPlain_hexDigit (n := b.toNat % 16) (by omega)
          rw [hb, percentByte, List.mem_cons, List.mem_cons, List.mem_singleton]
            at hc
          rcases hc with rfl | rfl | rfl
          · exact Or.inr (Or.inr rfl)
          · exact Or.inl hhi
          · exact Or.inl hlo
      · exact ih hc

end IsFormEncoder

/-!
## Decoders
-/

/-- The law of a decoder: it gives the text of the bytes that a text with percent
escapes stands for, and fails only where the bytes are no text. -/
def IsPercentDecoder (decode? : List Char -> Option (List Char)) : Prop :=
  forall text bytes, PercentCodes text bytes -> decode? text = ofUtf8? bytes

theorem percentDecode_escape {hi lo : Char} {b : UInt8} (h : HexByte hi lo b)
    (rest : List Char) :
    percentDecode ('%' :: hi :: lo :: rest) = b :: percentDecode rest := by
  have hb : UInt8.ofNat (16 * (b.toNat / 16) + b.toNat % 16) = b := by
    rw [Nat.div_add_mod, UInt8.ofNat_toNat]
  simp only [percentDecode, h.1, h.2, hb]

theorem hexValue?_lt {c : Char} {n : Nat} (h : hexValue? c = some n) :
    n < 16 := by
  grind [hexValue?]

theorem hexByte_ofNat {hi lo : Char} {m n : Nat} (hhi : hexValue? hi = some m)
    (hlo : hexValue? lo = some n) : HexByte hi lo (UInt8.ofNat (16 * m + n)) := by
  have hm := hexValue?_lt hhi
  have hn := hexValue?_lt hlo
  have hb : (UInt8.ofNat (16 * m + n)).toNat = 16 * m + n :=
    UInt8.toNat_ofNat_of_lt' (by show _ < 256; omega)
  constructor
  · rw [hb, hhi, show (16 * m + n) / 16 = m by omega]
  · rw [hb, hlo, show (16 * m + n) % 16 = n by omega]

theorem percentDecode_char {c : Char} {rest : List Char}
    (h : forall hi lo b, c = '%' -> [hi, lo] <+: rest -> ¬ HexByte hi lo b) :
    percentDecode (c :: rest) = String.utf8EncodeChar c ++ percentDecode rest := by
  generalize htext : c :: rest = text
  fun_cases percentDecode text with
  | case1 => cases htext
  | case2 hi lo rest' m n hlo hhi =>
      cases htext
      exact absurd (hexByte_ofNat hhi hlo) (h hi lo _ rfl ⟨rest', rfl⟩)
  | case3 =>
      cases htext
      rfl
  | case4 =>
      cases htext
      rfl

theorem percentCodes_percentDecode (text : List Char) :
    PercentCodes text (percentDecode text) := by
  fun_induction percentDecode text with
  | case1 => exact PercentCodes.nil
  | case2 hi lo rest m n hlo hhi ih =>
      exact PercentCodes.escape (hexByte_ofNat hhi hlo) ih
  | case3 hi lo rest hnone ih =>
      apply PercentCodes.char _ ih
      intro hi' lo' b _ hfront hbyte
      simp only [List.cons_prefix_cons] at hfront
      rcases hfront with ⟨rfl, rfl, _⟩
      exact hnone _ _ hbyte.1 hbyte.2
  | case4 c rest hnone ih =>
      apply PercentCodes.char _ ih
      intro hi lo b hpercent hfront _
      rcases hfront with ⟨rest', hrest⟩
      exact hnone hi lo rest' hpercent hrest.symm

theorem percentCodes_iff {text : List Char} {bytes : List UInt8} :
    PercentCodes text bytes ↔ percentDecode text = bytes := by
  constructor
  · intro h
    induction h with
    | nil => rfl
    | escape hbyte _ ih => rw [percentDecode_escape hbyte, ih]
    | char hchar _ ih => rw [percentDecode_char hchar, ih]
  · intro h
    rw [← h]
    exact percentCodes_percentDecode text

theorem isPercentDecoder_percentDecode? : IsPercentDecoder percentDecode? := by
  intro text bytes h
  rw [percentDecode?, percentCodes_iff.mp h]

end Text
end SearchQuery
