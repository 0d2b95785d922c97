import QuestionSynthesis.Json.Scanner
import QuestionSynthesis.Text.Blank

/-!
Structured replies of the text service. Services wrap JSON in prose or in a fence of backquotes, or
get it slightly wrong. Loading never fails: what cannot be read is an empty object, with a warning.
-/

namespace QuestionSynthesis

namespace StructuredReply

def fence : List Char := ['\x60', '\x60', '\x60']

def dropFirstLine (s : List Char) : List Char :=
  match s.dropWhile (· ≠ '\n') with
  | [] => s
  | _ :: r => r

def stripEnding? (ending s : List Char) : Option (List Char) :=
  if ending.isSuffixOf s then some (s.take (s.length - ending.length)) else none

/-- Drops a fence around a text, with the rest of the opening line. -/
def stripFence (s : List Char) : List Char :=
  if fence.isPrefixOf s then
    let body := dropFirstLine (s.drop fence.length)
    Text.trim ((stripEnding? fence (Text.trimRight body)).getD body)
  else s

def members? (j : Json) : Option (Entries Json) :=
  if j.readable Json.nestingLimit then
    match j.collapse with
    | .object members => some members
    | _ => none
  else none

def objectAt? (s : List Char) : Option (Entries Json) :=
  (Json.parseFront? s).bind fun p => members? p.1

def firstObject? : List Char → Option (Entries Json)
  | [] => none
  | c :: r =>
    if c = '{' then
      match objectAt? (c :: r) with
      | some m => some m
      | none => firstObject? r
    else firstObject? r

/-- The object that a text consists of, or else the first one found in it. -/
def object? (s : List Char) : Option (Entries Json) :=
  match (Json.parse? s).bind members? with
  | some m => some m
  | none => firstObject? s

def warningLength : Nat := 200

structure Loaded where
  members : Entries Json
  warnings : List String

/-- Loads a reply: its first object, or no members and a warning that quotes the reply. -/
def load (text : String) : Loaded :=
  match object? (stripFence (Text.trim text.toList)) with
  | some m => ⟨m, []⟩
  | none => ⟨[], [String.ofList (text.toList.take warningLength)]⟩

end StructuredReply

end QuestionSynthesis
