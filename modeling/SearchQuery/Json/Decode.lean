import SearchQuery.Json

/-!
# Names and options from structured data

A name from a closed vocabulary is a string, or an object with that name as its
only member and the value `null`.  Options are an object, in which a missing
member means the default and an unknown one means nothing, or an array of their
values, of which the last may be missing.
-/

namespace SearchQuery

namespace Json

def word? : Json -> Option String
  | string s => some s
  | object [(name, null)] => some name
  | _ => none

def bool? : Json -> Option Bool
  | bool b => some b
  | _ => none

def word64? : Json -> Option Nat
  | integer n => if 0 ≤ n && n.toNat < UInt64.size then some n.toNat else none
  | _ => none

end Json

namespace Field

def ofJson? (value : Json) : Option Field :=
  value.word?.bind ofWord?

end Field

namespace Subfield

def ofJson? (value : Json) : Option Subfield :=
  value.word?.bind ofWord?

end Subfield

namespace Operator

def ofJson? (value : Json) : Option Operator :=
  value.word?.bind ofName?

end Operator

namespace Relation

def ofJson? (value : Json) : Option Relation :=
  value.word?.bind ofName?

end Relation

namespace Options

/-- The value of an optional member: the default if it is missing, nothing if it
does not fit. -/
def member? {α : Type} (read : Json -> Option α) (default : α)
    (members : List (String × Json)) (name : String) : Option α :=
  match members.lookup name with
  | none => some default
  | some value => read value

def ofItems? : List Json -> Option Options
  | [] => some {}
  | [fallback] => fallback.bool?.map (fun b => { fulltextFallback := b })
  | [fallback, depth] =>
      fallback.bool?.bind (fun b =>
        depth.word64?.map (fun n => { fulltextFallback := b, maxDepth := n }))
  | _ => none

def ofJson? : Json -> Option Options
  | .object members =>
      let defaults : Options := {}
      (member? Json.bool? defaults.fulltextFallback members
          "fulltext_fallback").bind (fun b =>
        (member? Json.word64? defaults.maxDepth members "max_depth").map
          (fun n => { fulltextFallback := b, maxDepth := n }))
  | .array items => ofItems? items
  | _ => none

end Options

end SearchQuery
