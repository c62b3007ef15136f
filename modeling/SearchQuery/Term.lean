import SearchQuery.Catalog
import SearchQuery.Text.Characters

/-!
# Comparison operators

An operator stands between the address of a term and its value.  Each has one
token, and every other token that the term syntax lets through (`==`, `=>`,
`<>`, `@`) is read as equality.
-/

namespace SearchQuery

inductive Operator where
  | equals
  | greater
  | lesser
  | greaterEquals
  | lesserEquals
  deriving DecidableEq, Inhabited, Repr

namespace Operator

def token : Operator -> String
  | equals => "="
  | greater => ">"
  | lesser => "<"
  | greaterEquals => ">="
  | lesserEquals => "<="

/-- The operator that a token stands for; a token without a meaning of its own
stands for equality. -/
def ofToken (token : List Char) : Operator :=
  if token = ['>'] then greater
  else if token = ['<'] then lesser
  else if token = ['>', '='] then greaterEquals
  else if token = ['<', '='] then lesserEquals
  else equals

def name : Operator -> String
  | equals => "equals"
  | greater => "greater"
  | lesser => "lesser"
  | greaterEquals => "greater_equals"
  | lesserEquals => "lesser_equals"

def ofName? : String -> Option Operator
  | "equals" => some equals
  | "greater" => some greater
  | "lesser" => some lesser
  | "greater_equals" => some greaterEquals
  | "lesser_equals" => some lesserEquals
  | _ => none

theorem ofToken_token (o : Operator) : ofToken o.token.toList = o := by
  cases o <;> decide

theorem ofName?_name (o : Operator) : ofName? o.name = some o := by
  cases o <;> rfl

end Operator

/-!
# Terms

A term is a leaf of a query: it compares what an address names with a value.
Labels, statement indices and values are kept as plain text, without the
escapes of query text.
-/

inductive Address where
  | field (field : Field)
  | statement (index : String) (subfield : Option Subfield)
  | collection (label : String)
  | technical (label : String)
  deriving DecidableEq, Repr

structure Term where
  address : Address
  operator : Operator := .equals
  value : String
  negated : Bool := false
  deriving DecidableEq, Repr

namespace Term

def isBlank (t : Term) : Bool :=
  t.value.toList.all Text.isBlank

/-- The same comparison, whether negated or not. -/
def isSame (t u : Term) : Bool :=
  t.address == u.address && t.operator == u.operator && t.value == u.value

theorem isSame_iff {t u : Term} :
    t.isSame u = true <->
      ({ t with negated := false } : Term) = { u with negated := false } := by
  cases t
  cases u
  simp [isSame, and_assoc]

end Term

end SearchQuery
