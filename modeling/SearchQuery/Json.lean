import SearchQuery.Element

/-!
# JSON values

The values of structured data, and their text over several lines, indented by
two spaces a level.  Object members keep their order.
-/

namespace SearchQuery

inductive Json where
  | null
  | bool (value : Bool)
  | integer (value : Int)
  | decimal (digits : String)
  | string (value : String)
  | array (items : List Json)
  | object (members : List (String × Json))
  deriving Repr

namespace Json

def twoHexDigits (n : Nat) : List Char :=
  [Nat.digitChar (n / 16), Nat.digitChar (n % 16)]

def escapeChar (c : Char) : List Char :=
  if c = '"' then ['\\', '"']
  else if c = '\\' then ['\\', '\\']
  else if c = '\x08' then ['\\', 'b']
  else if c = '\x0c' then ['\\', 'f']
  else if c = '\n' then ['\\', 'n']
  else if c = '\r' then ['\\', 'r']
  else if c = '\t' then ['\\', 't']
  else if c.toNat < 0x20 then ['\\', 'u', '0', '0'] ++ twoHexDigits c.toNat
  else [c]

def literal (s : String) : String :=
  String.ofList ('"' :: s.toList.flatMap escapeChar ++ ['"'])

def indent (level : Nat) : String :=
  String.ofList (List.replicate (2 * level) ' ')

mutual

/-- The text of a value that begins at a given level. -/
def prettyAt (level : Nat) : Json -> String
  | null => "null"
  | bool true => "true"
  | bool false => "false"
  | integer n => toString n
  | decimal digits => digits
  | string s => literal s
  | array [] => "[]"
  | array (item :: rest) =>
      "[\n" ++ prettyItems (level + 1) (item :: rest) ++ "\n" ++ indent level ++ "]"
  | object [] => "\x7b\x7d"
  | object (member :: rest) =>
      "\x7b\n" ++ prettyMembers (level + 1) (member :: rest) ++ "\n" ++
        indent level ++ "\x7d"

def prettyItems (level : Nat) : List Json -> String
  | [] => ""
  | [item] => indent level ++ prettyAt level item
  | item :: rest =>
      indent level ++ prettyAt level item ++ ",\n" ++ prettyItems level rest

def prettyMembers (level : Nat) : List (String × Json) -> String
  | [] => ""
  | [(name, value)] =>
      indent level ++ literal name ++ ": " ++ prettyAt level value
  | (name, value) :: rest =>
      indent level ++ literal name ++ ": " ++ prettyAt level value ++ ",\n" ++
        prettyMembers level rest

end

def pretty (value : Json) : String :=
  prettyAt 0 value

end Json

/-!
# Queries as structured data

The JSON form of a query tree.  A chain is an array that alternates between
objects for elements and objects for relations.
-/

namespace Relation

def toJson (r : Relation) : Json :=
  .string r.name

end Relation

namespace Address

def members : Address -> List (String × Json)
  | field f => [("field", .string f.word)]
  | statement index subfield =>
      [("index", .string index),
        ("metadata_field",
          match subfield with
          | some f => .string f.word
          | none => .null)]
  | collection label => [("label", .string label)]
  | technical label => [("label", .string label)]

def kindName : Address -> String
  | field _ => "pair"
  | statement _ _ => "metadata"
  | collection _ => "collection_metadata"
  | technical _ => "technical"

end Address

namespace Term

def toJson (t : Term) : Json :=
  .object
    [(t.address.kindName,
      .object
        (t.address.members ++
          [("operator", .string t.operator.name),
            ("value", .string t.value),
            ("negated", .bool t.negated)]))]

end Term

namespace Chain

def toJson (c : Chain Json) : Json :=
  .array (c.entries.map (fun entry =>
    match entry with
    | .element value => .object [("element", value)]
    | .relation r => .object [("relation", r.toJson)]))

end Chain

namespace Element

def toJson : Element -> Json :=
  fold Term.toJson (fun items negated =>
    .object
      [("group",
        .object [("entries", items.toJson), ("negated", .bool negated)])])

end Element

namespace Query

def toJson (q : Query) : Json :=
  .object [("entries", Chain.toJson (q.map Element.toJson))]

end Query

end SearchQuery
