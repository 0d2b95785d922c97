import QuestionSynthesis.Binary64.Decimal
import QuestionSynthesis.Binary64.Shortest
import QuestionSynthesis.Entries
import QuestionSynthesis.Text.Blank

/-!
Property values. Chunk metadata is loosely typed: a score may arrive as a number or as a text, so a
value has a numeric view, and loose equality compares numbers as numbers and all else as texts.
-/

namespace QuestionSynthesis

inductive Value where
  | null
  | bool (b : Bool)
  | int (n : Int64)
  | double (x : Binary64)
  | string (s : String)
  | list (items : List Value)
  | map (entries : List (String × Value))
  deriving Inhabited

abbrev Properties := Entries Value

namespace Value

def ofWord (n : Nat) : Value :=
  if n ≤ Int64.maxValue.toInt.toNat then int (.ofNat n) else double (.ofNat n)

/-- The numeric view. A text has one if it spells a number between blanks. -/
def number? : Value → Option Binary64
  | double x => some x
  | int n => some (.ofInt n.toInt)
  | string s => Binary64.parse? (Text.trim s.toList)
  | _ => none

def string? : Value → Option String
  | string s => some s
  | _ => none

def quoted (s : String) : List Char :=
  '"' :: s.toList.flatMap (fun c => if c = '"' then ['\\', '"'] else [c]) ++ ['"']

mutual

def display : Value → List Char
  | null => "null".toList
  | bool true => "true".toList
  | bool false => "false".toList
  | int n => (toString n.toInt).toList
  | double x => (x.text .plain).toList
  | string s => quoted s
  | list [] => ['[', ']']
  | list (v :: r) => '[' :: display v ++ displayItems r
  | map [] => ['{', '}']
  | map ((k, v) :: r) => '{' :: k.toList ++ ':' :: ' ' :: display v ++ displayEntries r

def displayItems : List Value → List Char
  | [] => [']']
  | v :: r => ',' :: ' ' :: display v ++ displayItems r

def displayEntries : List (String × Value) → List Char
  | [] => ['}']
  | (k, v) :: r => ',' :: ' ' :: k.toList ++ ':' :: ' ' :: display v ++ displayEntries r

end

def text (v : Value) : String := String.ofList v.display

def plainText : Value → String
  | string s => s
  | v => v.text

mutual

/-- Structural equality. Doubles are equal as numbers, so a value with a NaN in it differs from
itself. -/
def same : Value → Value → Bool
  | null, null => true
  | bool a, bool b => a == b
  | int m, int n => m == n
  | double x, double y => x.eq y
  | string s, string t => s == t
  | list xs, list ys => sameItems xs ys
  | map xs, map ys => sameEntries xs ys
  | _, _ => false

def sameItems : List Value → List Value → Bool
  | [], [] => true
  | v :: r, w :: t => same v w && sameItems r t
  | _, _ => false

def sameEntries : List (String × Value) → List (String × Value) → Bool
  | [], [] => true
  | (k, v) :: r, (l, w) :: t => k == l && same v w && sameEntries r t
  | _, _ => false

end

/-- Equality across representations: as numbers if both are numeric, otherwise as plain texts. -/
def looseEq (a b : Value) : Bool :=
  if a.same b then true
  else match a.number?, b.number? with
    | some x, some y => x.eq y
    | _, _ => a.plainText == b.plainText

mutual

def depth : Value → Nat
  | list items => depthItems items + 1
  | map entries => depthEntries entries + 1
  | _ => 0

def depthItems : List Value → Nat
  | [] => 0
  | v :: r => max (depth v) (depthItems r)

def depthEntries : List (String × Value) → Nat
  | [] => 0
  | (_, v) :: r => max (depth v) (depthEntries r)

end

end Value

end QuestionSynthesis
