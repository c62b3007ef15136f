import SearchQuery.Chain
import SearchQuery.ParseError
import SearchQuery.Text.Characters

/-!
# Outlines

The outline of a text divides it, at one level of nesting, into flat terms and
bracketed groups, each with the relation and the negation that the words in
front of it give.  It is read off in one pass over the characters.  A part is
kept until it is known to be complete: a term ends with ` AND ` or ` OR ` or with
the text, a group with the bracket that closes it.  The words `NOT`, `AND` and
`OR` are words of the language only at the head of a part.
-/

namespace SearchQuery

/-- One level of a query: its text, the number of groups around it, and the
limit on that number. -/
structure Level where
  text : List Char
  depth : Nat := 0
  limit : Nat

namespace Level

def inner (l : Level) (text : List Char) : Level where
  text := text
  depth := l.depth + 1
  limit := l.limit

def allows (l : Level) (depth : Nat) : Bool :=
  l.depth + depth ≤ l.limit

end Level

inductive Body where
  | flat (text : List Char)
  | bracketed (inner : List Char)
  deriving DecidableEq, Repr

structure Piece where
  relation : Relation
  negated : Bool
  body : Body
  deriving DecidableEq, Repr

structure Outline where
  pieces : List Piece
  fault? : Option Fault
  deriving DecidableEq, Repr

/-!
# Parts
-/

/-- The characters of a part, last one first, and whether the next character is
escaped. -/
structure Part where
  read : List Char := []
  escaped : Bool := false
  deriving DecidableEq, Repr

namespace Part

def push (p : Part) (c : Char) : Part where
  read := c :: p.read
  escaped := Text.escapesNext p.escaped c

def text (p : Part) : List Char :=
  p.read.reverse

def opens (p : Part) (c : Char) : Bool :=
  !p.escaped && c == '('

def closes (p : Part) (c : Char) : Bool :=
  !p.escaped && c == ')'

def stopWord? (p : Part) : Option Relation :=
  match p.read with
  | ' ' :: 'D' :: 'N' :: 'A' :: ' ' :: _ => some .and
  | ' ' :: 'R' :: 'O' :: ' ' :: _ => some .or
  | _ => none

/-- The term that a part holds: without blanks at the end, and without one
relation at the end. -/
def term (p : Part) : List Char :=
  match p.read.dropWhile Text.isBlank with
  | 'D' :: 'N' :: 'A' :: ' ' :: rest => (rest.dropWhile Text.isBlank).reverse
  | 'R' :: 'O' :: ' ' :: rest => (rest.dropWhile Text.isBlank).reverse
  | read => read.reverse

end Part

/-!
# Reading an outline
-/

inductive Stage where
  -- Between two parts.
  | gap
  -- Within the first word of a part.
  | word (part : Part)
  -- Behind the first word of a part that is no group.
  | term (part : Part)
  -- Within a group; `inner` counts the open brackets behind the first.
  | group (part : Part) (inner : Nat)
  deriving DecidableEq, Repr

/-- The stage of a reading, and what the words read so far say about the next
piece. -/
structure Reading where
  stage : Stage := .gap
  negated : Bool := false
  relation : Relation := .and
  deriving DecidableEq, Repr

inductive Move where
  | go (next : Reading)
  | emit (piece : Piece) (next : Reading)
  | stop (fault : Fault)

namespace Reading

def heed (r : Reading) : Keyword -> Reading
  | .not => { r with stage := .gap, negated := true }
  | .relation relation => { r with stage := .gap, relation := relation }

def piece (r : Reading) (body : Body) : Piece where
  relation := r.relation
  negated := r.negated
  body := body

def openGroup (l : Level) (r : Reading) (part : Part) (inner : Nat) : Move :=
  if l.allows (inner + 1) then
    .go { r with stage := .group (part.push '(') inner }
  else .stop ⟨.tooDeep l.limit, l.text⟩

def closeGroup (r : Reading) (part : Part) : Move :=
  match part.text with
  | '(' :: inner =>
      .emit (r.piece (.bracketed inner))
        { r with stage := .gap, negated := false }
  | text => .stop ⟨.strayGroup, text ++ [')']⟩

def refuseClose (part : Part) : Move :=
  .stop ⟨.unmatchedClose, (part.push ')').text⟩

def step (l : Level) (r : Reading) (c : Char) : Move :=
  match r.stage with
  | .gap =>
      let part : Part := {}
      if Text.isBlank c then .go r
      else if part.opens c then openGroup l r part 0
      else if part.closes c then refuseClose part
      else .go { r with stage := .word (part.push c) }
  | .word part =>
      if part.opens c then
        match Keyword.ofWord? part.text with
        | some k => openGroup l (r.heed k) {} 0
        | none => openGroup l r part 0
      else if part.closes c then refuseClose part
      else if Text.isBlank c then
        match Keyword.ofWord? part.text with
        | some k => .go (r.heed k)
        | none => .go { r with stage := .term (part.push c) }
      else .go { r with stage := .word (part.push c) }
  | .term part =>
      if part.opens c then openGroup l r part 0
      else if part.closes c then refuseClose part
      else
        match (part.push c).stopWord? with
        | some relation =>
            .emit (r.piece (.flat (part.push c).term)) { relation := relation }
        | none => .go { r with stage := .term (part.push c) }
  | .group part inner =>
      if part.opens c then openGroup l r part (inner + 1)
      else if part.closes c then
        match inner with
        | 0 => closeGroup r part
        | inner + 1 => .go { r with stage := .group (part.push c) inner }
      else .go { r with stage := .group (part.push c) inner }

def run (l : Level) (r : Reading) : List Char -> List Piece × Except Fault Reading
  | [] => ([], .ok r)
  | c :: rest =>
      match r.step l c with
      | .go next => next.run l rest
      | .emit piece next =>
          let tail := next.run l rest
          (piece :: tail.1, tail.2)
      | .stop fault => ([], .error fault)

def finish (r : Reading) : Outline :=
  match r.stage with
  | .gap => ⟨[], none⟩
  | .word part => ⟨[r.piece (.flat part.term)], none⟩
  | .term part => ⟨[r.piece (.flat part.term)], none⟩
  | .group part _ => ⟨[], some ⟨.unmatchedOpen, Text.trimEnd part.text⟩⟩

end Reading

namespace Outline

def ofLevel (l : Level) : Outline :=
  match ({} : Reading).run l l.text with
  | (pieces, .ok r) =>
      let tail := r.finish
      ⟨pieces ++ tail.pieces, tail.fault?⟩
  | (pieces, .error fault) => ⟨pieces, some fault⟩

end Outline

end SearchQuery
