/-!
Finite maps from names, kept as lists sorted by name, so that two maps with the same answers are
the same list. Names are ordered by code points.
-/

namespace QuestionSynthesis

abbrev Entries (α : Type) := List (String × α)

namespace Entries

variable {α β : Type}

def insert (name : String) (a : α) : Entries α → Entries α
  | [] => [(name, a)]
  | (k, b) :: r =>
    if name < k then (name, a) :: (k, b) :: r
    else if name = k then (name, a) :: r
    else (k, b) :: insert name a r

def get? (name : String) : Entries α → Option α
  | [] => none
  | (k, b) :: r => if k = name then some b else get? name r

/-- Enters pairs in order; of several with one name the last remains. -/
def ofPairs (pairs : List (String × α)) : Entries α :=
  pairs.foldl (fun m p => insert p.1 p.2 m) []

def Sorted (m : Entries α) : Prop := m.Pairwise (fun p q => p.1 < q.1)

end Entries

end QuestionSynthesis
