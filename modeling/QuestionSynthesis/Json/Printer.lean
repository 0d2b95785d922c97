import QuestionSynthesis.Binary64.Shortest
import QuestionSynthesis.Json.Tree

/-!
Writing JSON documents, on one line or with an indentation of two blanks. In strings the quote, the
backslash and the control characters are escaped, and nothing else.
-/

namespace QuestionSynthesis

namespace Json

def hexDigit (n : Nat) : Char := if n < 10 then Char.ofNat (48 + n) else Char.ofNat (87 + n)

def escapeChar (c : Char) : List Char :=
  if c = '"' then ['\\', '"']
  else if c = '\\' then ['\\', '\\']
  else if c = '\x08' then ['\\', 'b']
  else if c = '\x0c' then ['\\', 'f']
  else if c = '\n' then ['\\', 'n']
  else if c = '\r' then ['\\', 'r']
  else if c = '\t' then ['\\', 't']
  else if c.toNat < 0x20 then
    ['\\', 'u', '0', '0', hexDigit (c.toNat / 16), hexDigit (c.toNat % 16)]
  else [c]

def quote (s : String) : List Char := '"' :: s.toList.flatMap escapeChar ++ ['"']

def intText (n : Int) : List Char :=
  match n with
  | .ofNat m => Nat.toDigits 10 m
  | .negSucc m => '-' :: Nat.toDigits 10 (m + 1)

def leafText : Json → List Char
  | bool true => "true".toList
  | bool false => "false".toList
  | int n => intText n
  | double x => (x.text .marked).toList
  | string s => quote s
  | _ => "null".toList

mutual

def compact : Json → List Char
  | array [] => ['[', ']']
  | array (j :: r) => '[' :: compact j ++ compactItems r
  | object [] => ['{', '}']
  | object ((k, j) :: r) => '{' :: quote k ++ ':' :: compact j ++ compactMembers r
  | j => leafText j

def compactItems : List Json → List Char
  | [] => [']']
  | j :: r => ',' :: compact j ++ compactItems r

def compactMembers : List (String × Json) → List Char
  | [] => ['}']
  | (k, j) :: r => ',' :: quote k ++ ':' :: compact j ++ compactMembers r

end

def newLine (depth : Nat) : List Char := '\n' :: List.replicate (2 * depth) ' '

mutual

def pretty (depth : Nat) : Json → List Char
  | array [] => ['[', ']']
  | array (j :: r) => '[' :: newLine (depth + 1) ++ pretty (depth + 1) j ++ prettyItems depth r
  | object [] => ['{', '}']
  | object ((k, j) :: r) =>
    '{' :: newLine (depth + 1) ++ quote k ++ ':' :: ' ' :: pretty (depth + 1) j ++
      prettyMembers depth r
  | j => leafText j

def prettyItems (depth : Nat) : List Json → List Char
  | [] => newLine depth ++ [']']
  | j :: r => ',' :: newLine (depth + 1) ++ pretty (depth + 1) j ++ prettyItems depth r

def prettyMembers (depth : Nat) : List (String × Json) → List Char
  | [] => newLine depth ++ ['}']
  | (k, j) :: r =>
    ',' :: newLine (depth + 1) ++ quote k ++ ':' :: ' ' :: pretty (depth + 1) j ++
      prettyMembers depth r

end

def toPretty (j : Json) : String := String.ofList (pretty 0 j)

def toCompact (j : Json) : String := String.ofList (compact j)

end Json

end QuestionSynthesis
