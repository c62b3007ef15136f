/-!
# UTF-8

Bytes from a URL or from an input stream are UTF-8 text, or they are refused as
a whole.
-/

namespace SearchQuery
namespace Text

def utf8 (text : List Char) : List UInt8 :=
  text.flatMap String.utf8EncodeChar

def ofUtf8? (bytes : List UInt8) : Option (List Char) :=
  (bytes.toByteArray.utf8Decode?).map Array.toList

theorem utf8_cons (c : Char) (text : List Char) :
    utf8 (c :: text) = String.utf8EncodeChar c ++ utf8 text :=
  List.flatMap_cons

theorem ofUtf8?_utf8 (text : List Char) : ofUtf8? (utf8 text) = some text := by
  have h : (utf8 text).toByteArray = text.utf8Encode := rfl
  rw [ofUtf8?, h, List.utf8Decode?_utf8Encode]
  rfl

/-- Bytes are valid exactly when they are the bytes of a text. -/
theorem ofUtf8?_eq_some_iff {bytes : List UInt8} {text : List Char} :
    ofUtf8? bytes = some text <-> bytes = utf8 text := by
  constructor
  · intro h
    rcases Option.map_eq_some_iff.mp h with ⟨chars, hchars, rfl⟩
    have hsome : bytes.toByteArray.utf8Decode?.isSome = true := by
      rw [hchars]
      rfl
    have hencode := ByteArray.utf8Encode_get_utf8Decode? (h := hsome)
    simp only [hchars, Option.get_some] at hencode
    exact (List.toByteArray_inj.mp hencode).symm
  · intro h
    rw [h, ofUtf8?_utf8]

/-!
# Form encoding

A query travels in a URL parameter in form encoding: letters, digits and
`* - . _` stand for themselves, a space is `+`, and every other character is
written as the `%XX` of each of its UTF-8 bytes.  Decoding reads a `+` as a
space, then `%XX` with two hexadecimal digits of either case; any other `%`
stands for itself.
-/

def isFormPlain (c : Char) : Bool :=
  c.isAlphanum || c == '*' || c == '-' || c == '.' || c == '_'

def hexDigit (n : Nat) : Char :=
  if n < 10 then Char.ofNat (0x30 + n) else Char.ofNat (0x37 + n)

def hexValue? (c : Char) : Option Nat :=
  let n := c.toNat
  if 0x30 ≤ n && n ≤ 0x39 then some (n - 0x30)
  else if 0x41 ≤ n && n ≤ 0x46 then some (n - 0x37)
  else if 0x61 ≤ n && n ≤ 0x66 then some (n - 0x57)
  else none

def percentByte (b : UInt8) : List Char :=
  ['%', hexDigit (b.toNat / 16), hexDigit (b.toNat % 16)]

def formEncodeByte (b : UInt8) : List Char :=
  if isFormPlain (Char.ofUInt8 b) then [Char.ofUInt8 b]
  else if b = 0x20 then ['+']
  else percentByte b

def formEncode (bytes : List UInt8) : List Char :=
  bytes.flatMap formEncodeByte

/-- The bytes of a text in which percent escapes stand for bytes. -/
def percentDecode : List Char -> List UInt8
  | [] => []
  | '%' :: hi :: lo :: rest =>
      match hexValue? hi, hexValue? lo with
      | some h, some l => UInt8.ofNat (16 * h + l) :: percentDecode rest
      | _, _ => String.utf8EncodeChar '%' ++ percentDecode (hi :: lo :: rest)
  | c :: rest => String.utf8EncodeChar c ++ percentDecode rest

def percentDecode? (text : List Char) : Option (List Char) :=
  ofUtf8? (percentDecode text)

def plusToSpace (c : Char) : Char :=
  if c = '+' then ' ' else c

theorem hexValue?_hexDigit {n : Nat} (h : n < 16) :
    hexValue? (hexDigit n) = some n := by
  have hall : forall m, m < 16 -> hexValue? (hexDigit m) = some m := by decide
  exact hall n h

end Text
end SearchQuery
