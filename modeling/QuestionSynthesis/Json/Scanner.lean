import QuestionSynthesis.Json.Numeral

/-!
Reading JSON texts, one character at a time. The open containers stand on a stack and the rest of
the state says what may come next, so the reader takes a single pass over the text whatever the
nesting, and reading a text in two pieces is reading it at once.
-/

namespace QuestionSynthesis

namespace Json

/-- A piece of a string literal: a character, or a UTF-16 code unit of a surrogate pair. -/
inductive TextUnit where
  | char (c : Char)
  | surrogate (n : Nat)
  deriving DecidableEq

def pairChar (high low : Nat) : Char :=
  Char.ofNat (0x10000 + (high - 0xd800) * 0x400 + (low - 0xdc00))

def joinUnits : List TextUnit → Option (List Char)
  | [] => some []
  | .char c :: r => (joinUnits r).map (c :: ·)
  | .surrogate h :: .surrogate l :: r =>
    if h < 0xdc00 ∧ 0xdc00 ≤ l then (joinUnits r).map (pairChar h l :: ·) else none
  | .surrogate _ :: _ => none

def unitOfCode (n : Nat) : TextUnit :=
  if 0xd800 ≤ n ∧ n < 0xe000 then .surrogate n else .char (Char.ofNat n)

def hexDigit? (c : Char) : Option Nat :=
  if c.isDigit then some (c.toNat - '0'.toNat)
  else if 'a' ≤ c ∧ c ≤ 'f' then some (c.toNat - 'a'.toNat + 10)
  else if 'A' ≤ c ∧ c ≤ 'F' then some (c.toNat - 'A'.toNat + 10)
  else none

def escaped? : Char → Option Char
  | '"' => some '"'
  | '\\' => some '\\'
  | '/' => some '/'
  | 'b' => some '\x08'
  | 'f' => some '\x0c'
  | 'n' => some '\n'
  | 'r' => some '\r'
  | 't' => some '\t'
  | _ => none

inductive Frame where
  | array (items : List Json)
  | object (members : List (Option String × Json))
  | entry (members : List (Option String × Json)) (name : Option String)

inductive Stand where
  | value
  | valueOrClose
  | nameOrClose
  | name
  | colon (name : Option String)
  | separator
  | word (rest : List Char) (value : Json)
  | numeral (read : List Char)
  | text (isName : Bool) (units : List TextUnit)
  | escape (isName : Bool) (units : List TextUnit)
  | code (isName : Bool) (units : List TextUnit) (left : Nat) (read : Nat)
  | finished (value : Json)

structure Scanner where
  stack : List Frame
  stand : Stand

namespace Scanner

def start : Scanner := ⟨[], .value⟩

/-- The object of the members read. A name without a text makes the object unreadable. -/
def closeObject (members : List (Option String × Json)) : Json :=
  match members.reverse.mapM (fun m => m.1.map (·, m.2)) with
  | some ms => .object ms
  | none => .unreadable

def give (stack : List Frame) (v : Json) : Scanner :=
  match stack with
  | [] => ⟨[], .finished v⟩
  | .array items :: r => ⟨.array (v :: items) :: r, .separator⟩
  | .entry members name :: r => ⟨.object ((name, v) :: members) :: r, .separator⟩
  | .object members :: r => ⟨.object ((none, v) :: members) :: r, .separator⟩

def giveText (stack : List Frame) (isName : Bool) (units : List TextUnit) : Scanner :=
  let content := (joinUnits units.reverse).map String.ofList
  if isName then ⟨stack, .colon content⟩
  else give stack <| match content with
    | some s => .string s
    | none => .unreadable

def isSpace (c : Char) : Bool := c == ' ' || c == '\n' || c == '\t' || c == '\r'

def isNumeral (c : Char) : Bool :=
  c.isDigit || c == '-' || c == '+' || c == '.' || c == 'e' || c == 'E'

def openValue (stack : List Frame) (c : Char) : Option Scanner :=
  if c = '{' then some ⟨.object [] :: stack, .nameOrClose⟩
  else if c = '[' then some ⟨.array [] :: stack, .valueOrClose⟩
  else if c = '"' then some ⟨stack, .text false []⟩
  else if c = 'n' then some ⟨stack, .word "ull".toList .null⟩
  else if c = 't' then some ⟨stack, .word "rue".toList (.bool true)⟩
  else if c = 'f' then some ⟨stack, .word "alse".toList (.bool false)⟩
  else if c.isDigit || c == '-' then some ⟨stack, .numeral [c]⟩
  else none

def close (stack : List Frame) (c : Char) : Option Scanner :=
  match stack with
  | .array items :: r => if c = ']' then some (give r (.array items.reverse)) else none
  | .object members :: r => if c = '}' then some (give r (closeObject members)) else none
  | _ => none

def separate (stack : List Frame) (c : Char) : Option Scanner :=
  if c = ',' then
    match stack with
    | .array _ :: _ => some ⟨stack, .value⟩
    | .object _ :: _ => some ⟨stack, .name⟩
    | _ => none
  else close stack c

def punctuate (s : Scanner) (c : Char) : Option Scanner :=
  if isSpace c then some s
  else match s.stand with
    | .value => openValue s.stack c
    | .valueOrClose => if c = ']' then close s.stack c else openValue s.stack c
    | .nameOrClose =>
      if c = '"' then some ⟨s.stack, .text true []⟩ else close s.stack c
    | .name => if c = '"' then some ⟨s.stack, .text true []⟩ else none
    | .colon name =>
      match s.stack with
      | .object members :: r =>
        if c = ':' then some ⟨.entry members name :: r, .value⟩ else none
      | _ => none
    | .separator => separate s.stack c
    | _ => none

def step (s : Scanner) (c : Char) : Option Scanner :=
  match s.stand with
  | .word [] _ => none
  | .word (d :: r) v => if c = d then
      some (if r.isEmpty then give s.stack v else ⟨s.stack, .word r v⟩) else none
  | .numeral read =>
    if isNumeral c then some ⟨s.stack, .numeral (c :: read)⟩
    else (Numeral.read? read.reverse).bind fun v => (give s.stack v).punctuate c
  | .text isName units =>
    if c = '"' then some (giveText s.stack isName units)
    else if c = '\\' then some ⟨s.stack, .escape isName units⟩
    else if c.toNat < 0x20 then none
    else some ⟨s.stack, .text isName (.char c :: units)⟩
  | .escape isName units =>
    if c = 'u' then some ⟨s.stack, .code isName units 4 0⟩
    else (escaped? c).map fun d => ⟨s.stack, .text isName (.char d :: units)⟩
  | .code isName units left read =>
    (hexDigit? c).map fun d =>
      let n := 16 * read + d
      if left ≤ 1 then ⟨s.stack, .text isName (unitOfCode n :: units)⟩
      else ⟨s.stack, .code isName units (left - 1) n⟩
  | _ => s.punctuate c

def run (s : Scanner) : List Char → Option Scanner
  | [] => some s
  | c :: r => (s.step c).bind (run · r)

def result? (s : Scanner) : Option Json :=
  match s.stand, s.stack with
  | .finished v, _ => some v
  | .numeral read, [] => Numeral.read? read.reverse
  | _, _ => none

def runToEnd (s : Scanner) : List Char → Option (Json × List Char)
  | [] => s.result?.map (·, [])
  | c :: r =>
    match s.stand with
    | .finished v => some (v, c :: r)
    | _ => (s.step c).bind (runToEnd · r)

end Scanner

def parse? (text : List Char) : Option Json := (Scanner.start.run text).bind Scanner.result?

/-- Reads the container that a text begins with, and leaves what follows it. -/
def parseFront? (text : List Char) : Option (Json × List Char) := Scanner.start.runToEnd text

def parseReadable? (text : List Char) : Option Json :=
  (parse? text).filter (readable nestingLimit)

end Json

end QuestionSynthesis
