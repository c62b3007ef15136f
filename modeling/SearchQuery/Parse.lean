import SearchQuery.Fragment
import SearchQuery.Outline.Length
import SearchQuery.Text.Form

/-!
# Parsing

A query is parsed level by level: the outline of a text gives its pieces, flat
pieces are read as fragments, and the inside of a group is the text of the next level.
A group that comes out empty is dropped together with its relation.  The first
fault in the order of the text ends the parse.
-/

namespace SearchQuery

namespace Piece

/-- The element that a piece stands for, if any: `term` reads a flat text and
`nested` the inside of a group. -/
def element? (term : List Char -> Bool -> Except Fault Element)
    (nested : List Char -> Except Fault Query) (p : Piece) :
    Except Fault (Option Element) :=
  match p.body with
  | .flat text => (term text p.negated).map some
  | .bracketed inner =>
      (nested inner).map (fun q =>
        if q.isEmpty then none else some (.group q p.negated))

def joints (term : List Char -> Bool -> Except Fault Element)
    (nested : List Char -> Except Fault Query) :
    List Piece -> Except Fault (List (Relation × Element))
  | [] => .ok []
  | p :: rest =>
      match p.element? term nested with
      | .error fault => .error fault
      | .ok e? =>
          match joints term nested rest with
          | .error fault => .error fault
          | .ok js => .ok ((e?.map (fun e => (p.relation, e))).toList ++ js)

theorem element?_congr {term : List Char -> Bool -> Except Fault Element}
    {f g : List Char -> Except Fault Query} {p : Piece}
    (h : forall inner, p.body = .bracketed inner -> f inner = g inner) :
    p.element? term f = p.element? term g := by
  unfold element?
  split
  · rfl
  next inner hbody => rw [h inner hbody]

theorem joints_congr {term : List Char -> Bool -> Except Fault Element}
    {f g : List Char -> Except Fault Query} {pieces : List Piece}
    (h : forall p, p ∈ pieces -> forall inner, p.body = .bracketed inner ->
      f inner = g inner) :
    joints term f pieces = joints term g pieces := by
  induction pieces with
  | nil => rfl
  | cons p rest ih =>
      rw [joints, joints, element?_congr (h p List.mem_cons_self),
        ih (fun q hq => h q (List.mem_cons_of_mem _ hq))]

end Piece

namespace Outline

def toQuery (term : List Char -> Bool -> Except Fault Element)
    (nested : List Char -> Except Fault Query) (o : Outline) :
    Except Fault Query :=
  match Piece.joints term nested o.pieces with
  | .error fault => .error fault
  | .ok js =>
      match o.fault? with
      | some fault => .error fault
      | none => .ok (Chain.ofJoints js)

theorem toQuery_congr {term : List Char -> Bool -> Except Fault Element}
    {f g : List Char -> Except Fault Query} {o : Outline}
    (h : forall p, p ∈ o.pieces -> forall inner, p.body = .bracketed inner ->
      f inner = g inner) :
    o.toQuery term f = o.toQuery term g := by
  rw [toQuery, toQuery, Piece.joints_congr h]

end Outline

namespace Level

def readWithin (settings : Settings) : Nat -> Level -> Except Fault Query
  | 0, _ => .ok .nil
  | fuel + 1, l =>
      (Outline.ofLevel l).toQuery (Fragment.read settings)
        (fun inner => readWithin settings fuel (l.inner inner))

/-- The query of a level.  The inside of a group is shorter than the text around
it, so there are never more levels than characters. -/
def read (settings : Settings) (l : Level) : Except Fault Query :=
  readWithin settings (l.text.length + 1) l

theorem read_eq (settings : Settings) (l : Level) :
    l.read settings =
      (Outline.ofLevel l).toQuery (Fragment.read settings)
        (fun inner => (l.inner inner).read settings) := by
  exact within_length_eq (readWithin settings)
    (fun l nested => (Outline.ofLevel l).toQuery (Fragment.read settings) nested)
    (fun _ _ => rfl) (fun _ _ _ h => Outline.toQuery_congr h) l

end Level

namespace Query

def read (settings : Settings) (text : List Char) : Except Fault Query :=
  Level.read settings { text := text, limit := settings.maxDepth }

def parse (settings : Settings) (text : String) : Except ParseError Query :=
  (read settings text.toList).mapError (ParseError.ofFault text)

def parseFormWith (decode? : List Char -> Option (List Char))
    (settings : Settings) (encoded : String) : Except ParseError Query :=
  match decode? (encoded.toList.map Text.plusToSpace) with
  | some text => parse settings (String.ofList text)
  | none =>
      .error { cause := .notUtf8, fragment := encoded, query := encoded }

def parseForm (settings : Settings) (encoded : String) :
    Except ParseError Query :=
  parseFormWith Text.percentDecode? settings encoded

end Query

end SearchQuery
