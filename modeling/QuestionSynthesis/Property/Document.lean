import QuestionSynthesis.Json.Reader
import QuestionSynthesis.Property.Value

/-!
Property values and JSON. There are two ways in: the conversion of a tree, and the reading of a
document as the first kind of value that accepts it. There is one way out.
-/

namespace QuestionSynthesis

namespace Value

/-- A whole number of a document: an integer if it fits a signed word, otherwise a double. -/
def ofInt (n : Int) : Value :=
  if Int64.minValue.toInt ≤ n ∧ n ≤ Int64.maxValue.toInt then int (.ofInt n) else double (.ofInt n)

mutual

def ofJson : Json → Value
  | .null => null
  | .bool b => bool b
  | .int n => ofInt n
  | .double x => double x
  | .string s => string s
  | .array items => list (ofJsonItems items)
  | .object members => map (ofJsonMembers members)
  | .unreadable => null

def ofJsonItems : List Json → List Value
  | [] => []
  | j :: r => ofJson j :: ofJsonItems r

def ofJsonMembers : List (String × Json) → List (String × Value)
  | [] => []
  | (k, j) :: r => (k, ofJson j) :: ofJsonMembers r

end

def readNull : Json → Option Value
  | .null => some null
  | _ => none

def readBool : Json → Option Value
  | .bool b => some (bool b)
  | _ => none

def readInt : Json → Option Value
  | .int n =>
    if Int64.minValue.toInt ≤ n ∧ n ≤ Int64.maxValue.toInt then some (int (.ofInt n)) else none
  | _ => none

def readDouble : Json → Option Value
  | .int n => some (double (.ofInt n))
  | .double x => some (double x)
  | _ => none

def readString : Json → Option Value
  | .string s => some (string s)
  | _ => none

def readLeaf (j : Json) : Option Value :=
  readNull j <|> readBool j <|> readInt j <|> readDouble j <|> readString j

mutual

/-- A document as the first kind of value that accepts it. -/
def ofDocument? : Json → Option Value
  | .array items => (ofDocumentItems? items).map list
  | .object members => (ofDocumentMembers? members).map fun ms => map (Entries.ofPairs ms)
  | .null => readLeaf .null
  | .bool b => readLeaf (.bool b)
  | .int n => readLeaf (.int n)
  | .double x => readLeaf (.double x)
  | .string s => readLeaf (.string s)
  | .unreadable => none

def ofDocumentItems? : List Json → Option (List Value)
  | [] => some []
  | j :: r => do
    let v ← ofDocument? j
    let vs ← ofDocumentItems? r
    some (v :: vs)

def ofDocumentMembers? : List (String × Json) → Option (List (String × Value))
  | [] => some []
  | (k, j) :: r => do
    let v ← ofDocument? j
    let vs ← ofDocumentMembers? r
    some ((k, v) :: vs)

end

def read : Json.Reader Value := fun room j => if j.readable room then ofDocument? j else none

mutual

def toJson : Value → Json
  | null => .null
  | bool b => .bool b
  | int n => .int n.toInt
  | double x => .ofDouble x
  | string s => .string s
  | list items => .array (toJsonItems items)
  | map entries => .object (toJsonEntries entries)

def toJsonItems : List Value → List Json
  | [] => []
  | v :: r => toJson v :: toJsonItems r

def toJsonEntries : List (String × Value) → List (String × Json)
  | [] => []
  | (k, v) :: r => (k, toJson v) :: toJsonEntries r

end

end Value

namespace Properties

def read : Json.Reader Properties := Json.Reader.entries Value.read

def toJson (p : Properties) : Json := .object (Value.toJsonEntries p)

end Properties

end QuestionSynthesis
