/-!
# Parse errors

Reading a query is all or nothing.  An error has a cause, the fragment of text
in which it was found, and the whole query.  Each cause belongs to one of three
kinds and determines the message.
-/

namespace SearchQuery

inductive ErrorKind where
  | malformedQuery
  | unknownField
  | tooDeeplyNested
  deriving DecidableEq, Repr

namespace ErrorKind

def text : ErrorKind -> String
  | malformedQuery => "malformed query"
  | unknownField => "unknown field"
  | tooDeeplyNested => "query nested too deeply"

end ErrorKind

inductive Cause where
  | emptyTerm
  | missingStatement
  | unknownSubfield (name : String)
  | unknownField (name : String)
  | missingField
  | missingValue
  | malformedTechnical
  | unmatchedClose
  | unmatchedOpen
  | strayGroup
  | tooDeep (limit : Nat)
  | notUtf8
  deriving DecidableEq, Repr

namespace Cause

def kind : Cause -> ErrorKind
  | unknownSubfield _ => .unknownField
  | unknownField _ => .unknownField
  | tooDeep _ => .tooDeeplyNested
  | _ => .malformedQuery

def message : Cause -> String
  | emptyTerm => "expected a search term"
  | missingStatement => "missing statement index after `md.`"
  | unknownSubfield name => "unknown metadata field `" ++ name ++ "`"
  | unknownField name => "unknown field `" ++ name ++ "`"
  | missingField => "missing field name before operator"
  | missingValue => "missing value after operator"
  | malformedTechnical => "expected `technical[<label>]<operator><value>`"
  | unmatchedClose => "unmatched `)`"
  | unmatchedOpen => "unmatched `(`"
  | strayGroup => "parenthesis inside an unbracketed value"
  | tooDeep limit => "groups nest deeper than " ++ toString limit
  | notUtf8 => "percent-encoded query is not valid UTF-8"

end Cause

structure Fault where
  cause : Cause
  fragment : List Char
  deriving DecidableEq, Repr

structure ParseError where
  cause : Cause
  fragment : String
  query : String
  deriving DecidableEq, Repr

namespace ParseError

def ofFault (query : String) (f : Fault) : ParseError where
  cause := f.cause
  fragment := String.ofList f.fragment
  query := query

def kind (e : ParseError) : ErrorKind :=
  e.cause.kind

def message (e : ParseError) : String :=
  e.cause.message

def isMalformed (e : ParseError) : Bool :=
  e.kind == .malformedQuery

def text (e : ParseError) : String :=
  e.message ++ ": `" ++ e.fragment ++ "`"

end ParseError

theorem except_mapError_eq_ok_iff {ε ε' α : Type} {x : Except ε α}
    {f : ε -> ε'} {a : α} : x.mapError f = .ok a <-> x = .ok a := by
  cases x with
  | error fault =>
      constructor
      · intro h
        cases h
      · intro h
        cases h
  | ok b =>
      constructor
      · intro h
        cases h
        rfl
      · intro h
        cases h
        rfl

end SearchQuery
