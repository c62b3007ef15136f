/-!
# Blank characters

Query text is divided by whitespace, and whitespace is every character with the
Unicode property `White_Space`.  Trimming removes it at one or both ends.
-/

namespace SearchQuery
namespace Text

def isBlank (c : Char) : Bool :=
  let n := c.toNat
  (0x09 ≤ n && n ≤ 0x0D) || n == 0x20 || n == 0x85 || n == 0xA0 || n == 0x1680 ||
    (0x2000 ≤ n && n ≤ 0x200A) || n == 0x2028 || n == 0x2029 || n == 0x202F ||
    n == 0x205F || n == 0x3000

def trimStart (text : List Char) : List Char :=
  text.dropWhile isBlank

def trimEnd (text : List Char) : List Char :=
  (text.reverse.dropWhile isBlank).reverse

def trim (text : List Char) : List Char :=
  trimEnd (trimStart text)

/-!
# Escapes

A backslash makes the character after it literal.  Values are written with a
backslash in front of each bracket, each operator character and each backslash;
reading drops every escaping backslash, also in front of other characters.
-/

def isSpecial (c : Char) : Bool :=
  c == '\\' || c == '(' || c == ')' || c == '=' || c == '<' || c == '>'

def escape : List Char -> List Char
  | [] => []
  | c :: rest =>
      if isSpecial c then '\\' :: c :: escape rest else c :: escape rest

/-- Drop every escaping backslash and keep the character after it.  A backslash
at the end escapes nothing and is dropped too. -/
def unescape : List Char -> List Char
  | [] => []
  | ['\\'] => []
  | '\\' :: c :: rest => c :: unescape rest
  | c :: rest => c :: unescape rest

/-- Whether the character after `c` is escaped, given whether `c` itself is. -/
def escapesNext (escaped : Bool) (c : Char) : Bool :=
  !escaped && c == '\\'

theorem unescape_cons_of_ne {c : Char} (h : c ≠ '\\') (rest : List Char) :
    unescape (c :: rest) = c :: unescape rest := by
  rw [unescape]
  · intro hc
    cases hc
    exact absurd rfl h
  · intro d rest' hc
    cases hc
    exact absurd rfl h

theorem escape_append (a b : List Char) :
    escape (a ++ b) = escape a ++ escape b := by
  induction a with
  | nil => rfl
  | cons c rest ih =>
      by_cases h : isSpecial c = true
      · simp [escape, h, ih]
      · simp [escape, h, ih]

theorem unescape_escape (text : List Char) : unescape (escape text) = text := by
  induction text with
  | nil => rfl
  | cons c rest ih =>
      by_cases h : isSpecial c = true
      · rw [escape, if_pos h, unescape, ih]
      · have hc : c ≠ '\\' := by
          intro hc
          rw [hc] at h
          exact h rfl
        rw [escape, if_neg h, unescape_cons_of_ne hc, ih]

end Text
end SearchQuery
