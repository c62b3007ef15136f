import SearchQuery.Element
import SearchQuery.ParseError

/-!
# Shapes of a term

The text of a term has one of four shapes, tried in a fixed order: a metadata
statement (`md.` path), a collection label (`collection.md.` label), a technical
label (`technical[` label `]`), or a field name, each followed by an operator
and a value.  A shape splits the text into these three parts, with the longest
name or label that leaves an operator and a value, and then the longest
operator.
-/

namespace SearchQuery

structure Split where
  name : List Char
  operator : List Char
  value : List Char
  deriving DecidableEq, Repr

namespace Split

def isComparison (c : Char) : Bool :=
  c == '=' || c == '<' || c == '>'

def isComparisonOrAt (c : Char) : Bool :=
  isComparison c || c == '@'

def isName (c : Char) : Bool :=
  c.isAlphanum || c == '_' || c == '.' || c == '-'

def isPath (c : Char) : Bool :=
  isName c || c == ':'

/-- Split text into an operator of one or two characters, as long as possible,
and a value that is not empty. -/
def operator? (isOp : Char -> Bool) : List Char -> Option (List Char × List Char)
  | a :: b :: c :: rest =>
      if isOp a then
        if isOp b then some ([a, b], c :: rest) else some ([a], b :: c :: rest)
      else none
  | [a, b] => if isOp a then some ([a], [b]) else none
  | _ => none

def named? (isNameChar : Char -> Bool) (text : List Char) : Option Split :=
  match text.takeWhile isNameChar with
  | [] => none
  | name =>
      (operator? isComparison (text.dropWhile isNameChar)).map
        (fun p => ⟨name, p.1, p.2⟩)

/-- Split text into a label closed by a bracket, an operator and a value.  The
label is as long as possible and may be empty. -/
def closed? : List Char -> Option Split
  | [] => none
  | c :: rest =>
      match closed? rest with
      | some s => some { s with name := c :: s.name }
      | none =>
          if c = ']' then
            (operator? isComparisonOrAt rest).map (fun p => ⟨[], p.1, p.2⟩)
          else none

def labelled? : List Char -> Option Split
  | [] => none
  | c :: rest => (closed? rest).map (fun s => { s with name := c :: s.name })

end Split

inductive Shape where
  | statement
  | collection
  | technical
  | field
  deriving DecidableEq, Repr

namespace Shape

def lead : Shape -> List Char
  | statement => "md.".toList
  | collection => "collection.md.".toList
  | technical => "technical[".toList
  | field => []

def splitBody? : Shape -> List Char -> Option Split
  | statement => Split.named? Split.isPath
  | collection => Split.named? Split.isPath
  | technical => Split.labelled?
  | field => Split.named? Split.isName

def split? (shape : Shape) (text : List Char) : Option Split :=
  (shape.lead.isPrefixOf? text).bind shape.splitBody?

def ofText? (text : List Char) : Option (Shape × Split) :=
  [statement, collection, technical, field].findSome?
    (fun shape => (shape.split? text).map (fun s => (shape, s)))

end Shape

namespace Address

/-- The address of a metadata path: its first segment is the index of a
statement, the second, if it is there and not empty, names a sub-field, and
further segments count for nothing. -/
def ofPath (catalog : Catalog) (path : List Char) : Except Cause Address :=
  match path.takeWhile (· ≠ '.') with
  | [] => .error .missingStatement
  | index =>
      match ((path.dropWhile (· ≠ '.')).drop 1).takeWhile (· ≠ '.') with
      | [] => .ok (.statement (String.ofList index) none)
      | name =>
          match catalog.subfield? (String.ofList name) with
          | some f => .ok (.statement (String.ofList index) (some f))
          | none => .error (.unknownSubfield (String.ofList name))

def ofCollectionLabel (label : List Char) : Address :=
  .collection
    (String.ofList (label.map (fun c => if c = '_' then ' ' else c)))

def ofCollectionIndex (index : List Char) : Address :=
  ofCollectionLabel ((Shape.collection.lead.isPrefixOf? index).getD index)

def ofName (catalog : Catalog) (name : List Char) : Shape -> Except Cause Address
  | .statement => ofPath catalog name
  | .collection => .ok (ofCollectionLabel name)
  | .technical => .ok (.technical (String.ofList name))
  | .field =>
      match catalog.field? (String.ofList name) with
      | some f => .ok (.field f)
      | none => .error (.unknownField (String.ofList name))

end Address

/-!
# Fragments

A fragment is a piece of query text without groups.  It is a term if it has the
shape of one, an error if it looks like a term that lost a part, and free text
otherwise.  Escapes are resolved in values and in free text, and nowhere else.
-/

namespace Element

def freeText (fulltextFallback : Bool) (text : String) (negated : Bool) :
    Element :=
  if fulltextFallback then
    .group
      (.cons (.term { address := .field .all, value := text })
        [(.or, .term { address := .field .fulltext, value := text })])
      negated
  else
    .term { address := .field .all, value := text, negated := negated }

end Element

namespace Fragment

/-- Whether a text ends in an operator of one or two characters, behind a word
that has no blank and no operator character and does not end in a backslash. -/
def lacksValue (text : List Char) : Bool :=
  let word := text.takeWhile (fun c => !Split.isComparison c)
  let operator := text.dropWhile (fun c => !Split.isComparison c)
  match word.getLast? with
  | none => false
  | some last =>
      !word.any Text.isBlank && last != '\\' && operator.all Split.isComparison &&
        (operator.length == 1 || operator.length == 2)

def dangling? (text : List Char) : Option Cause :=
  if text.head?.any Split.isComparison then some .missingField
  else if lacksValue text then some .missingValue
  else if Shape.technical.lead.isPrefixOf text then some .malformedTechnical
  else none

def element (settings : Settings) (text : List Char) (negated : Bool) :
    Except Cause Element :=
  match text with
  | [] => .error .emptyTerm
  | text =>
      match Shape.ofText? text with
      | some (shape, s) =>
          (Address.ofName settings.catalog s.name shape).map (fun address =>
            .term
              { address := address
                operator := Operator.ofToken s.operator
                value := String.ofList (Text.unescape s.value)
                negated := negated })
      | none =>
          match dangling? text with
          | some cause => .error cause
          | none =>
              .ok (.freeText settings.fulltextFallback
                (String.ofList (Text.unescape text)) negated)

def read (settings : Settings) (text : List Char) (negated : Bool) :
    Except Fault Element :=
  (element settings text negated).mapError (fun cause => ⟨cause, text⟩)

end Fragment

namespace Element

def ofFragment (settings : Settings) (text : String) (negated : Bool) :
    Except ParseError Element :=
  (Fragment.read settings text.toList negated).mapError
    (ParseError.ofFault text)

end Element

end SearchQuery
