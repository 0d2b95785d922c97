import QuestionSynthesis.Error

/-!
Conditions on nodes and relationships. A query is a conjunction; a part that is not set holds of
everything.
-/

namespace QuestionSynthesis

inductive Comparison where
  | gt
  | lt
  | eq
  deriving DecidableEq, Inhabited

namespace Comparison

def ofText (s : String) : Except Error Comparison :=
  if s = "gt" ∨ s = ">" then .ok gt
  else if s = "lt" ∨ s = "<" then .ok lt
  else if s = "eq" ∨ s = "=" ∨ s = "==" then .ok eq
  else .error (.invalidQuery s!"invalid comparison operator: {s}")

/-- Greater and less compare numbers, and fail where one side is not numeric. -/
def holds (c : Comparison) (actual expected : Value) : Bool :=
  match c with
  | eq => actual.looseEq expected
  | gt =>
    match actual.number?, expected.number? with
    | some a, some e => e.lt a
    | _, _ => false
  | lt =>
    match actual.number?, expected.number? with
    | some a, some e => a.lt e
    | _, _ => false

end Comparison

structure PropertyPredicate where
  key : String
  value : Value
  comparison : Comparison

def PropertyPredicate.holds (p : PropertyPredicate) (properties : Properties) : Bool :=
  match Entries.get? p.key properties with
  | some actual => p.comparison.holds actual p.value
  | none => false

structure NodeQuery where
  ids : Option (List NodeId) := none
  label : Option NodeLabel := none
  level : Option NodeLevel := none
  property : Option (String × Value) := none

def NodeQuery.holds (q : NodeQuery) (n : Node) : Bool :=
  q.ids.all (·.contains n.id) &&
  q.label.all (· == n.label) &&
  q.level.all (some · == n.level) &&
  q.property.all fun (name, v) => (n.get? name).any (·.looseEq v)

structure TargetFilter where
  label : Option NodeLabel := none
  property : Option PropertyPredicate := none

def TargetFilter.holds (f : TargetFilter) (target : Node) : Bool :=
  f.label.all (· == target.label) && f.property.all (·.holds target.properties)

structure RelationshipQuery where
  label : Option String := none
  property : Option PropertyPredicate := none
  target : Option TargetFilter := none

def RelationshipQuery.holds (q : RelationshipQuery) (r : Relationship) (target : Node) : Bool :=
  q.label.all r.hasLabel && q.property.all (·.holds r.properties) && q.target.all (·.holds target)

end QuestionSynthesis
