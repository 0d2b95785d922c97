import QuestionSynthesis.Corpus.Document

/-!
What an evolution is asked for: the shape of its question and its two budgets. Rejected questions
spend `maxTries`, rejected nodes spend `maxResamples`; the rejection after the last one that a
budget tolerates ends the evolution.
-/

namespace QuestionSynthesis

open Json (Reader Record)

inductive QuestionStyle where
  | misspelled
  | perfectGrammar
  | poorGrammar
  | webSearchLike
  deriving DecidableEq, Inhabited

namespace QuestionStyle

def describe : QuestionStyle → String
  | misspelled => "Misspelled queries"
  | perfectGrammar => "Perfect grammar"
  | poorGrammar => "Poor grammar"
  | webSearchLike => "Web search like queries"

def name : QuestionStyle → String
  | misspelled => "misspelled"
  | perfectGrammar => "perfect_grammar"
  | poorGrammar => "poor_grammar"
  | webSearchLike => "web_search_like"

def ofName? (s : String) : Option QuestionStyle :=
  if s = "misspelled" then some misspelled
  else if s = "perfect_grammar" then some perfectGrammar
  else if s = "poor_grammar" then some poorGrammar
  else if s = "web_search_like" then some webSearchLike
  else none

def read : Reader QuestionStyle := Reader.choice ofName?

def toJson (s : QuestionStyle) : Json := .string s.name

end QuestionStyle

inductive QuestionLength where
  | short
  | medium
  | long
  deriving DecidableEq, Inhabited

namespace QuestionLength

def describe : QuestionLength → String
  | short => "short"
  | medium => "medium"
  | long => "long"

def ofName? (s : String) : Option QuestionLength :=
  if s = "short" then some short
  else if s = "medium" then some medium
  else if s = "long" then some long
  else none

def read : Reader QuestionLength := Reader.choice ofName?

def toJson (l : QuestionLength) : Json := .string l.describe

end QuestionLength

namespace Evolution

structure Settings where
  maxTries : Nat := 5
  /-- Rejected nodes tolerated; without a bound if absent. -/
  maxResamples : Option Nat := some 50
  style : QuestionStyle := .perfectGrammar
  length : QuestionLength := .medium
  deriving DecidableEq, Inhabited

namespace Settings

def fieldNames : List String := ["max_tries", "max_resamples", "style", "length"]

/-- Reads settings. A bound that is `null` is no bound; one that is absent is the default. -/
def read : Reader Settings := fun room j => do
  let r ← Record.readPartial fieldNames room j
  let d : Settings := {}
  let maxTries ← r.orDefault "max_tries" d.maxTries Reader.word
  let maxResamples ← r.orDefault "max_resamples" d.maxResamples (Reader.nullable Reader.word)
  let style ← r.orDefault "style" d.style QuestionStyle.read
  let length ← r.orDefault "length" d.length QuestionLength.read
  return { maxTries, maxResamples, style, length }

def toJson (s : Settings) : Json := .object
  [("max_tries", .int s.maxTries),
    ("max_resamples", .ofOption (fun n : Nat => .int n) s.maxResamples),
    ("style", s.style.toJson), ("length", s.length.toJson)]

end Settings

end Evolution

end QuestionSynthesis
