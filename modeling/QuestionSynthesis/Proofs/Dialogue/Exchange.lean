import QuestionSynthesis.Dialogue.Session
import QuestionSynthesis.Proofs.Dialogue.Template

/-!
# What a single exchange says

An exchange tells by itself what its call was for: a prompt begins with the instruction of the
template that it was rendered from, and no instruction of the engine begins like another.
-/

namespace QuestionSynthesis

namespace Template

def begins (t : Template) (prompt : String) : Bool :=
  t.instruction.toList.isPrefixOf prompt.toList

theorem render_of_inputs (t : Template) (vars : List (String × String))
    (h : vars.map Prod.fst = t.inputs) : ∃ prompt, t.render vars = .ok prompt :=
  render_succeeds_iff.mpr fun key => by rw [h]

theorem begins_of_render {t : Template} {vars : List (String × String)} {prompt : String}
    (h : t.render vars = .ok prompt) : t.begins prompt = true := by
  cases render_eq_iff.mp h with
  | rendered known found => simp [begins, layout, String.toList_append]

theorem head?_of_begins {t : Template} {prompt : String} {c : Char}
    (hc : t.instruction.toList.head? = some c) (h : t.begins prompt = true) :
    prompt.toList.head? = some c := by
  obtain ⟨rest, hrest⟩ := List.isPrefixOf_iff_prefix.mp h
  rw [← hrest, List.head?_append, hc]
  rfl

theorem not_begins_of_head? {t u : Template} {prompt : String} {c d : Char}
    (hc : t.instruction.toList.head? = some c) (hd : u.instruction.toList.head? = some d)
    (hne : c ≠ d) (h : t.begins prompt = true) : u.begins prompt = false := by
  refine Bool.eq_false_iff.mpr fun hu => hne ?_
  have h₁ := head?_of_begins hc h
  have h₂ := head?_of_begins hd hu
  exact Option.some.inj (h₁.symm.trans h₂)

theorem head?_append_literal (c : Char) (cs : List Char) (s : String) :
    (String.ofList (c :: cs) ++ s).toList.head? = some c := by
  simp

theorem contextScoring_head? : contextScoring.instruction.toList.head? = some 'E' := by
  simp only [contextScoring, String.append_assoc]
  exact head?_append_literal 'E' _ _

theorem seedQuestion_head? : seedQuestion.instruction.toList.head? = some 'G' := by
  simp only [seedQuestion, String.append_assoc]
  exact head?_append_literal 'G' _ _

theorem filterQuestion_head? : filterQuestion.instruction.toList.head? = some 'D' := by
  simp only [filterQuestion, String.append_assoc]
  exact head?_append_literal 'D' _ _

theorem multiContextQuestion_head? : multiContextQuestion.instruction.toList.head? = some 'R' := by
  simp only [multiContextQuestion, String.append_assoc]
  exact head?_append_literal 'R' _ _

theorem compressQuestion_head? : compressQuestion.instruction.toList.head? = some 'R' := by
  simp only [compressQuestion, String.append_assoc]
  exact head?_append_literal 'R' _ _

theorem referenceAnswer_head? : referenceAnswer.instruction.toList.head? = some 'A' := by
  simp only [referenceAnswer, String.append_assoc]
  exact head?_append_literal 'A' _ _

end Template

namespace Exchange

inductive Kind where
  | sample
  | lookBack
  | lookAhead
  | similar
  | score
  | seed
  | judge
  | reconcile
  | compress
  | answer
  | other
  deriving DecidableEq

/-- What a prompt asks for: the instruction that it begins with tells. -/
def Kind.ofPrompt (prompt : String) : Kind :=
  if Template.contextScoring.begins prompt then .score
  else if Template.seedQuestion.begins prompt then .seed
  else if Template.filterQuestion.begins prompt then .judge
  else if Template.multiContextQuestion.begins prompt then .reconcile
  else if Template.compressQuestion.begins prompt then .compress
  else if Template.referenceAnswer.begins prompt then .answer
  else .other

def kind : Exchange → Kind
  | .sample .. => .sample
  | .adjacent _ .prev _ => .lookBack
  | .adjacent _ .next _ => .lookAhead
  | .similar .. => .similar
  | .generate prompt .. => .ofPrompt prompt

theorem Kind.ofPrompt_contextScoring {vars : List (String × String)} {prompt : String}
    (h : Template.contextScoring.render vars = .ok prompt) : ofPrompt prompt = .score := by
  simp [ofPrompt, Template.begins_of_render h]

theorem Kind.ofPrompt_seedQuestion {vars : List (String × String)} {prompt : String}
    (h : Template.seedQuestion.render vars = .ok prompt) : ofPrompt prompt = .seed := by
  have hb := Template.begins_of_render h
  have hs := Template.not_begins_of_head? Template.seedQuestion_head?
    Template.contextScoring_head? (by decide) hb
  simp [ofPrompt, hb, hs]

theorem Kind.ofPrompt_filterQuestion {vars : List (String × String)} {prompt : String}
    (h : Template.filterQuestion.render vars = .ok prompt) : ofPrompt prompt = .judge := by
  have hb := Template.begins_of_render h
  have hs := Template.not_begins_of_head? Template.filterQuestion_head?
    Template.contextScoring_head? (by decide) hb
  have hq := Template.not_begins_of_head? Template.filterQuestion_head?
    Template.seedQuestion_head? (by decide) hb
  simp [ofPrompt, hb, hs, hq]

theorem Kind.ofPrompt_ne_answer {t : Template} {vars : List (String × String)} {prompt : String}
    {c : Char} (hc : t.instruction.toList.head? = some c) (hne : c ≠ 'A')
    (h : t.render vars = .ok prompt) : ofPrompt prompt ≠ .answer := by
  have hno := Template.not_begins_of_head? hc Template.referenceAnswer_head? hne
    (Template.begins_of_render h)
  simp only [ofPrompt, hno, Bool.false_eq_true, if_false]
  repeat' split
  all_goals decide

def Asks (x : Exchange) (t : Template) (vars : List (String × String)) : Prop :=
  ∃ prompt answer, t.render vars = .ok prompt ∧ x = .generate prompt 1 answer

def error? : Exchange → Option Error
  | .sample _ (.error e) => some e
  | .adjacent _ _ (.error e) => some e
  | .similar _ (.error e) => some e
  | .generate _ _ (.error e) => some e
  | _ => none

def text? : Exchange → Option String
  | .generate _ _ (.ok completions) => completions.firstText?
  | _ => none

theorem error?_of_text? {x : Exchange} {reply : String} (h : x.text? = some reply) :
    x.error? = none := by
  cases x with
  | generate prompt n answer =>
    cases answer with
    | error e => simp [text?] at h
    | ok completions => rfl
  | _ => simp [text?] at h

end Exchange

end QuestionSynthesis
