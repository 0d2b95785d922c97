import QuestionSynthesis.Binary64.Basic
import QuestionSynthesis.Entries

/-!
JSON documents as trees. Objects keep their members as written, repeated names included. A literal
that has the form of a number or a string but no value (a number beyond the doubles, a string with
half a surrogate pair) becomes a leaf of its own, so that a reader may skip it, yet not use it.
-/

namespace QuestionSynthesis

inductive Json where
  | null
  | bool (b : Bool)
  | int (n : Int)
  | double (x : Binary64)
  | string (s : String)
  | array (items : List Json)
  | object (members : List (String × Json))
  | unreadable
  deriving Inhabited

namespace Json

/-- The document of a double. Only finite ones can be written; the others become `null`. -/
def ofDouble (x : Binary64) : Json := if x.isFinite then double x else null

def nestingLimit : Nat := 127

mutual

def readable (room : Nat) : Json → Bool
  | unreadable => false
  | array items => 0 < room && readableItems (room - 1) items
  | object members => 0 < room && readableMembers (room - 1) members
  | _ => true

def readableItems (room : Nat) : List Json → Bool
  | [] => true
  | j :: r => readable room j && readableItems room r

def readableMembers (room : Nat) : List (String × Json) → Bool
  | [] => true
  | (_, j) :: r => readable room j && readableMembers room r

end

mutual

/-- The tree in which every object is a map: of several members with one name the last counts. -/
def collapse : Json → Json
  | array items => array (collapseItems items)
  | object members => object (Entries.ofPairs (collapseMembers members))
  | j => j

def collapseItems : List Json → List Json
  | [] => []
  | j :: r => collapse j :: collapseItems r

def collapseMembers : List (String × Json) → List (String × Json)
  | [] => []
  | (k, j) :: r => (k, collapse j) :: collapseMembers r

end

mutual

def depth : Json → Nat
  | array items => depthItems items + 1
  | object members => depthMembers members + 1
  | _ => 0

def depthItems : List Json → Nat
  | [] => 0
  | j :: r => max (depth j) (depthItems r)

def depthMembers : List (String × Json) → Nat
  | [] => 0
  | (_, j) :: r => max (depth j) (depthMembers r)

end

end Json

end QuestionSynthesis
