import QuestionSynthesis.Json.Scanner

/-!
Reading typed values from documents. A reader is given the number of containers that may still nest
and refuses what lies deeper. Records are objects, or arrays of their fields in order; of an object
the members that are no fields are skipped unread, and a field given twice is refused.
-/

namespace QuestionSynthesis

namespace Json

/-- Reads a value from a tree in which so many more containers may nest. -/
abbrev Reader (α : Type) := Nat → Json → Option α

namespace Reader

variable {α : Type}

def bool : Reader Bool
  | _, .bool b => some b
  | _, _ => none

def word : Reader Nat
  | _, .int n => if 0 ≤ n ∧ n ≤ wordMax then some n.toNat else none
  | _, _ => none

def double : Reader Binary64
  | _, .int n => some (.ofInt n)
  | _, .double x => some x
  | _, _ => none

def string : Reader String
  | _, .string s => some s
  | _, _ => none

def nullable (read : Reader α) : Reader (Option α)
  | _, .null => some none
  | room, j => (read room j).map some

def list (read : Reader α) : Reader (List α)
  | 0, _ => none
  | room + 1, .array items => items.mapM (read room)
  | _ + 1, _ => none

def entries (read : Reader α) : Reader (Entries α)
  | 0, _ => none
  | room + 1, .object members =>
    (members.mapM fun m => (read room m.2).map (m.1, ·)).map Entries.ofPairs
  | _ + 1, _ => none

/-- One of finitely many names, written as the string or as the object `{name: null}`. -/
def choice (ofName? : String → Option α) : Reader α
  | _, .string s => ofName? s
  | _ + 1, .object [(s, .null)] => ofName? s
  | _, _ => none

end Reader

structure Record where
  room : Nat
  fields : List (String × Json)

namespace Record

variable {α : Type}

def ofMembers (names : List String) (members : List (String × Json)) :
    Option (List (String × Json)) :=
  let fields := members.filter (names.contains ·.1)
  if (fields.map Prod.fst).Nodup then some fields else none

def read (names : List String) : Reader Record
  | 0, _ => none
  | room + 1, .object members => (ofMembers names members).map (⟨room, ·⟩)
  | room + 1, .array items =>
    if items.length = names.length then some ⟨room, names.zip items⟩ else none
  | _ + 1, _ => none

/-- Opens a record all of whose fields have defaults: an array of them may end early. -/
def readPartial (names : List String) : Reader Record
  | 0, _ => none
  | room + 1, .object members => (ofMembers names members).map (⟨room, ·⟩)
  | room + 1, .array items =>
    if items.length ≤ names.length then some ⟨room, names.zip items⟩ else none
  | _ + 1, _ => none

def required (r : Record) (name : String) (read : Reader α) : Option α :=
  (r.fields.lookup name).bind (read r.room)

def optional (r : Record) (name : String) (read : Reader α) : Option (Option α) :=
  match r.fields.lookup name with
  | some j => Reader.nullable read r.room j
  | none => some none

def orDefault (r : Record) (name : String) (default : α) (read : Reader α) : Option α :=
  match r.fields.lookup name with
  | some j => read r.room j
  | none => some default

end Record

def decode {α : Type} (read : Reader α) (text : String) : Option α :=
  (parse? text.toList).bind (read nestingLimit)

end Json

end QuestionSynthesis
