import SearchQuery.Element
import SearchQuery.Fragment
import SearchQuery.Text.Characters
import SearchQuery.Text.Form

/-!
# The text of a query

Every tree has one text.  Values are written with escapes; a group stands
between brackets, and a group that would be written as nothing leaves no trace,
not even its relation.  The pretty text is the same without escapes, and the
form text is the one that goes into a URL.
-/

namespace SearchQuery

def negation (negated : Bool) : List Char :=
  if negated then "NOT ".toList else []

namespace Address

def chars : Address -> List Char
  | field f => f.word.toList
  | statement index subfield =>
      Shape.statement.lead ++ index.toList ++
        match subfield with
        | some f => '.' :: f.word.toList
        | none => []
  | collection label =>
      Shape.collection.lead ++
        label.toList.map (fun c => if c = ' ' then '_' else c)
  | technical label => Shape.technical.lead ++ label.toList ++ [']']

end Address

namespace Term

def charsWith (write : List Char -> List Char) (t : Term) : List Char :=
  negation t.negated ++ t.address.chars ++ t.operator.token.toList ++
    write t.value.toList

end Term

namespace Chain

/-- Texts joined by the words of their relations.  An empty text is left out
together with its relation. -/
def joinChars (texts : Chain (List Char)) : List Char :=
  match texts.filterMap (fun text => if text = [] then none else some text) with
  | nil => []
  | cons text rest =>
      text ++ rest.flatMap (fun l =>
        ' ' :: l.1.keyword.toList ++ ' ' :: l.2)

end Chain

namespace Element

def charsWith (write : List Char -> List Char) : Element -> List Char :=
  fold (Term.charsWith write) (fun texts negated =>
    match texts.joinChars with
    | [] => []
    | inner => negation negated ++ '(' :: inner ++ [')'])

def chars : Element -> List Char :=
  charsWith Text.escape

def text (e : Element) : String :=
  String.ofList e.chars

end Element

namespace Query

/-- The text of a query whose values are written by `write`, without blanks at
its end. -/
def charsWith (write : List Char -> List Char) (q : Query) : List Char :=
  Text.trimEnd (q.map (Element.charsWith write)).joinChars

def chars (q : Query) : List Char :=
  q.charsWith Text.escape

def text (q : Query) : String :=
  String.ofList q.chars

def pretty (q : Query) : String :=
  String.ofList (Text.unescape q.chars)

def formTextWith (encode : List UInt8 -> List Char) (q : Query) : String :=
  String.ofList (encode (Text.utf8 q.chars))

def formText (q : Query) : String :=
  q.formTextWith Text.formEncode

end Query

end SearchQuery
