import SearchQuery.Parse

/-!
# The log

Reading a query leaves records in a log, in the order of the text: each fragment
that is handed on with the shape that it turns out to have, each group that is
dropped, and at the end a warning if the query is refused.  The log ends with the
first fault, as the reading does.
-/

namespace SearchQuery

inductive Severity where
  | trace
  | debug
  | warn
  deriving DecidableEq, Repr

inductive Detail where
  | text (text : String)
  | shown (form : String)
  | flag (value : Bool)
  deriving DecidableEq, Repr

structure Record where
  severity : Severity
  message : String
  details : List (String × Detail)
  deriving DecidableEq, Repr

def Relation.label : Relation -> String
  | and => "And"
  | or => "Or"

def ErrorKind.label : ErrorKind -> String
  | malformedQuery => "MalformedQuery"
  | unknownField => "UnknownField"
  | tooDeeplyNested => "TooDeeplyNested"

namespace Record

def flushing (term : List Char) (relation : Relation) (negated : Bool) : Record where
  severity := .trace
  message := "flushing term"
  details :=
    [("term", .text (String.ofList term)), ("relation", .shown relation.label),
      ("negated", .flag negated)]

def classified (what : String) (fragment : List Char)
    (details : List (String × Detail)) : Record where
  severity := .debug
  message := "classified as " ++ what
  details := ("fragment", .text (String.ofList fragment)) :: details

def dropping (inner : List Char) : Record where
  severity := .debug
  message := "dropping empty group"
  details := [("fragment", .text (String.ofList ('(' :: inner ++ [')'])))]

def refused (fault : Fault) : Record where
  severity := .warn
  message := "query could not be parsed"
  details :=
    [("kind", .shown fault.cause.kind.label),
      ("fragment", .shown (String.ofList fault.fragment))]

end Record

/-!
# Records of a reading
-/

/-- What the reading of a fragment logs.  The shape is logged before the names in
the fragment are looked up, but a field only when it is known. -/
def Fragment.records (settings : Settings) (text : List Char) : List Record :=
  match text with
  | [] => []
  | text =>
      match Shape.ofText? text with
      | some (.statement, _) => [.classified "metadata pair" text []]
      | some (.collection, _) => [.classified "collection metadata pair" text []]
      | some (.technical, _) => [.classified "technical pair" text []]
      | some (.field, s) =>
          match settings.catalog.field? (String.ofList s.name) with
          | some f => [.classified "field pair" text [("field", .text f.word)]]
          | none => []
      | none =>
          match dangling? text with
          | some _ => []
          | none => [.classified "free text" text []]

namespace Piece

section

variable (settings : Settings) (read : List Char -> Except Fault Query)

def records (nested : List Char -> List Record) (p : Piece) : List Record :=
  match p.body with
  | .flat text =>
      .flushing text p.relation p.negated :: Fragment.records settings text
  | .bracketed inner =>
      nested inner ++
        match read inner with
        | .ok .nil => [.dropping inner]
        | _ => []

/-- What the reading of pieces logs, up to the first one with a fault. -/
def listRecords (nested : List Char -> List Record) : List Piece -> List Record
  | [] => []
  | p :: rest =>
      p.records settings read nested ++
        match p.element? (Fragment.read settings) read with
        | .error _ => []
        | .ok _ => listRecords nested rest

variable {settings read}

theorem listRecords_congr {f g : List Char -> List Record} {pieces : List Piece}
    (h : forall p, p ∈ pieces -> forall inner, p.body = .bracketed inner ->
      f inner = g inner) :
    listRecords settings read f pieces = listRecords settings read g pieces := by
  induction pieces with
  | nil => rfl
  | cons p rest ih =>
      have hp : p.records settings read f = p.records settings read g := by
        unfold records
        split
        · rfl
        next inner hbody => rw [h p List.mem_cons_self inner hbody]
      rw [listRecords, listRecords, hp,
        ih (fun q hq => h q (List.mem_cons_of_mem p hq))]

end

end Piece

namespace Level

def recordsWithin (settings : Settings) : Nat -> Level -> List Record
  | 0, _ => []
  | fuel + 1, l =>
      Piece.listRecords settings (fun inner => (l.inner inner).read settings)
        (fun inner => recordsWithin settings fuel (l.inner inner))
        (Outline.ofLevel l).pieces

def records (settings : Settings) (l : Level) : List Record :=
  recordsWithin settings (l.text.length + 1) l

theorem records_eq (settings : Settings) (l : Level) :
    l.records settings =
      Piece.listRecords settings (fun inner => (l.inner inner).read settings)
        (fun inner => (l.inner inner).records settings)
        (Outline.ofLevel l).pieces := by
  exact within_length_eq (recordsWithin settings)
    (fun l nested => Piece.listRecords settings
      (fun inner => (l.inner inner).read settings) nested (Outline.ofLevel l).pieces)
    (fun _ _ => rfl) (fun _ _ _ h => Piece.listRecords_congr h) l

end Level

def Query.records (settings : Settings) (text : List Char) : List Record :=
  Level.records settings { text := text, limit := settings.maxDepth } ++
    match Query.read settings text with
    | .ok _ => []
    | .error fault => [.refused fault]

end SearchQuery
