import Mathlib.Data.List.TakeWhile
import QuestionSynthesis.Evolution.Filter
import QuestionSynthesis.Proofs.Dialogue.Calls
import QuestionSynthesis.Proofs.Dialogue.StructuredReply

/-!
# What the filters read out of a reply

A reply may say anything after its object, and in front of it anything that neither opens another
brace nor a fence, or a fence with its own line (`Lead`). Such a reply loads as its object alone, so
both filters decide by the members of that object and by nothing else
(`verdicts_ignore_wrapping`).
-/

namespace QuestionSynthesis

namespace StructuredReply

inductive Lead : List Char → Prop where
  | prose {text} (unopened : '{' ∉ text) (unfenced : ¬ fence <+: Text.trimLeft text) : Lead text
  | fenced {blanks info text} (blank : ∀ c ∈ blanks, Text.isBlank c = true) (line : '\n' ∉ info)
      (unopened : '{' ∉ text) : Lead (blanks ++ (fence ++ (info ++ '\n' :: text)))

variable {s before obj after : List Char} {m : Entries Json}

theorem begins_of_parse? (opens : obj.head? = some '{')
    (reads : (Json.parse? obj).bind members? = some m) : Begins obj m := by
  obtain ⟨j, hj, hm⟩ := Option.bind_eq_some_iff.mp reads
  obtain ⟨members, rfl⟩ := members?_object hm
  obtain ⟨spaces, more, rest, rfl, hspaces, front⟩ := Json.parse?_object hj
  cases spaces with
  | nil => exact objectAt?_eq_some_iff.mp (Option.bind_eq_some_iff.mpr ⟨_, front, hm⟩)
  | cons c spaces =>
    obtain rfl : c = '{' := by simpa using opens
    cases hspaces '{' List.mem_cons_self

theorem prefix_of_prefix_append_cons {α : Type} {p l r : List α} {c : α} (absent : c ∉ p)
    (h : p <+: l ++ c :: r) : p <+: l := by
  have hlong : l ++ [c] <+: l ++ c :: r := ⟨r, by simp⟩
  rcases List.prefix_or_prefix_of_prefix h hlong with hshort | hbeyond
  · rcases List.prefix_concat_iff.mp hshort with rfl | hwithin
    · exact absurd (by simp) absent
    · exact hwithin
  · exact absurd (hbeyond.subset (by simp)) absent

theorem dropFirstLine_append {info : List Char} (line : '\n' ∉ info) (body : List Char) :
    dropFirstLine (info ++ '\n' :: body) = body := by
  have hall : ∀ c ∈ info, (c ≠ '\n') = true := by
    intro c hc
    simp only [ne_eq, eq_iff_iff, iff_true]
    rintro rfl
    exact line hc
  have hdrop : (info ++ '\n' :: body).dropWhile (· ≠ '\n') = '\n' :: body := by
    rw [List.dropWhile_append_of_pos (by simpa using hall)]
    simp
  rw [dropFirstLine, hdrop]

theorem firstIn_trimRight : FirstIn (Text.trimRight s) m ↔ FirstIn s m := by
  obtain ⟨blanks, hsplit, blank⟩ := Text.trimRight_split s
  calc
    FirstIn (Text.trimRight s) m ↔ FirstIn (Text.trimRight s ++ blanks) m :=
      (firstIn_append_right (not_mem_of_blank (by decide) blank)).symm
    _ ↔ FirstIn s m := by rw [← hsplit]

theorem Lead.firstIn_stripFence (lead : Lead before) (begins : Begins s m) :
    FirstIn (stripFence (Text.trim (before ++ s))) m := by
  obtain ⟨rest, rfl⟩ := begins.head
  have first : FirstIn ('{' :: rest) m := .here begins
  cases lead with
  | prose unopened unfenced =>
    have unfenced' : ¬ fence.isPrefixOf (Text.trim (before ++ '{' :: rest)) = true := by
      intro fenced
      have hprefix := (List.isPrefixOf_iff_prefix.mp fenced).trans (Text.trimRight_prefix _)
      rw [Text.trimLeft_append_cons (by decide)] at hprefix
      exact unfenced (prefix_of_prefix_append_cons (by decide) hprefix)
    rw [stripFence, if_neg unfenced', firstIn_trim,
      firstIn_append_left_of_not_mem unopened]
    exact first
  | @fenced blanks info text blank line unopened =>
    have hblanks : Text.trimLeft blanks = [] := List.dropWhile_eq_nil_iff.mpr blank
    have htrim : Text.trim (blanks ++ (fence ++ (info ++ '\n' :: text)) ++ '{' :: rest) =
        fence ++ (info ++ '\n' :: (text ++ '{' :: Text.trimRight rest)) := by
      have hleft := Text.trimLeft_append_cons (c := '\x60') (by decide) blanks
        ('\x60' :: '\x60' :: (info ++ '\n' :: text) ++ '{' :: rest)
      have hright := Text.trimRight_append_cons (c := '{') (by decide)
        (fence ++ (info ++ '\n' :: text)) rest
      rw [hblanks] at hleft
      simp only [fence, List.append_assoc, List.cons_append, List.nil_append] at hleft hright ⊢
      rw [Text.trim, hleft, hright]
    rw [htrim, stripFence_fence, dropFirstLine_append line,
      firstIn_append_left_of_not_mem unopened]
    have hkept := Text.trimRight_append_cons (c := '{') (by decide) [] rest
    rw [List.nil_append, List.nil_append] at hkept
    rw [← hkept, firstIn_trimRight]
    exact first

theorem load_of_lead (lead : Lead before) (opens : obj.head? = some '{')
    (reads : (Json.parse? obj).bind members? = some m) (after : List Char) :
    load (String.ofList (before ++ obj ++ after)) = ⟨m, []⟩ := by
  have begins := (begins_of_parse? opens reads).append after
  have found := object?_eq_some_iff.mpr (lead.firstIn_stripFence begins)
  simp only [load, String.toList_ofList, List.append_assoc, found]

theorem members_load_trimmed (text : String) :
    (load (Text.trimmed text)).members = (load text).members := by
  have htrim : Text.trim (Text.trimmed text).toList = Text.trim text.toList :=
    (congrArg Text.trim (String.toList_ofList)).trans (Text.trim_of_bare (Text.trim_bare _))
  simp only [load, htrim]
  split <;> rfl

end StructuredReply

def Json.number? : Json → Option Binary64
  | .int n => some (.ofInt n)
  | .double x => some x
  | .string s => Binary64.parse? (Text.trim s.toList)
  | _ => none

theorem scoreOf_eq (m : Entries Json) :
    scoreOf m = ((Entries.get? "score" m).bind Json.number?).getD .zero := by
  unfold scoreOf
  cases Entries.get? "score" m with
  | none => rfl
  | some j => cases j <;> rfl

theorem accepts_eq_false_iff (m : Entries Json) :
    accepts m = false ↔ Entries.get? "verdict" m = some (.string "No") := by
  unfold accepts
  cases Entries.get? "verdict" m with
  | none => simp
  | some j => cases j <;> simp

variable {σ : Type} {w : Collaborators} {t : Trace} {reply : String}

/-- The service answers the request that a template makes of some values with a first completion of
this text. -/
def Replied (w : Collaborators) (t : Trace) (template : Template) (vars : List (String × String))
    (reply : String) : Prop :=
  ∃ prompt completions, template.render vars = .ok prompt ∧
    w.service.generate t prompt 1 = .ok completions ∧
    completions.generations.head?.map Completion.text = some reply

theorem generateText_of_replied {template : Template} {vars : List (String × String)}
    (h : Replied w t template vars reply) (s : σ) :
    ∃ prompt completions, template.render vars = .ok prompt ∧
      (Session.generateText prompt : Session σ String) w s t =
        (.value (Text.trimmed reply), s, t ++ [.generate prompt 1 (.ok completions)]) := by
  obtain ⟨prompt, completions, rendered, answered, htext⟩ := h
  refine ⟨prompt, completions, rendered, ?_⟩
  have hfirst : completions.firstText? = some (Text.trimmed reply) := by
    obtain ⟨completion, hhead, rfl⟩ := Option.map_eq_some_iff.mp htext
    rw [Completions.firstText?, hhead]
    rfl
  rw [Session.generateText_run, answered, Session.firstText, hfirst]
  rfl

theorem NodeFilter.evaluate_of_replied (f : NodeFilter) {n : Node}
    (h : Replied w t .contextScoring [("context", n.content)] reply) (s : σ) :
    (f.evaluate n w s t).1 =
      .value (.ofScore (scoreOf (StructuredReply.load reply).members) f.threshold) := by
  obtain ⟨prompt, _, rendered, run⟩ := generateText_of_replied h s
  rw [evaluate, rendered, Session.ofExcept_ok_bind, Session.bind_value run,
    StructuredReply.members_load_trimmed]
  rfl

theorem QuestionFilter.evaluate_of_replied {question : String}
    (h : Replied w t .filterQuestion [("question", question)] reply) (s : σ) :
    (evaluate question w s t).1 = .value (accepts (StructuredReply.load reply).members) := by
  obtain ⟨prompt, _, rendered, run⟩ := generateText_of_replied h s
  rw [evaluate, rendered, Session.ofExcept_ok_bind, Session.bind_value run,
    StructuredReply.members_load_trimmed]
  rfl

/-- A reply with an object behind a lead loads as that object. A node is then judged as if the
object were the whole reply, by the number that its score is or spells, and a question is refused
exactly if the verdict of the object is `No`. -/
theorem verdicts_ignore_wrapping {before obj : List Char} {m : Entries Json}
    (lead : StructuredReply.Lead before) (opens : obj.head? = some '{')
    (reads : (Json.parse? obj).bind StructuredReply.members? = some m) (after : List Char) :
    let reply := String.ofList (before ++ obj ++ after)
    let score := ((Entries.get? "score" m).bind Json.number?).getD .zero
    StructuredReply.load reply = ⟨m, []⟩ ∧
      (∀ (f : NodeFilter) (n : Node) (w w' : Collaborators) (s : σ) (t t' : Trace),
        Replied w t .contextScoring [("context", n.content)] reply →
        Replied w' t' .contextScoring [("context", n.content)] (.ofList obj) →
          (f.evaluate n w s t).1 = (f.evaluate n w' s t').1 ∧
          ∃ verdict, (f.evaluate n w s t).1 = .value verdict ∧ verdict.score = score ∧
            (verdict.passed = true ↔ f.threshold.le score = true)) ∧
      ∀ (question : String) (w : Collaborators) (s : σ) (t : Trace),
        Replied w t .filterQuestion [("question", question)] reply →
          ∃ accepted, (QuestionFilter.evaluate question w s t).1 = .value accepted ∧
            (accepted = false ↔ Entries.get? "verdict" m = some (.string "No")) := by
  intro reply score
  have wrapped : StructuredReply.load reply = ⟨m, []⟩ :=
    StructuredReply.load_of_lead lead opens reads after
  have bare : StructuredReply.load (.ofList obj) = ⟨m, []⟩ := by
    have lead : StructuredReply.Lead [] := .prose (by simp) (by decide)
    simpa using StructuredReply.load_of_lead lead opens reads []
  refine ⟨wrapped, ?_, ?_⟩
  · intro f n w w' s t t' replied replied'
    rw [f.evaluate_of_replied replied, f.evaluate_of_replied replied', wrapped, bare]
    exact ⟨rfl, _, rfl, scoreOf_eq m, by rw [NodeVerdict.ofScore, scoreOf_eq]⟩
  · intro question w s t replied
    rw [QuestionFilter.evaluate_of_replied replied, wrapped]
    exact ⟨_, rfl, accepts_eq_false_iff m⟩

theorem verdicts_ignore_wrapping_fenced :
    let before := [' '] ++ (StructuredReply.fence ++ ("json \x7b".toList ++ '\n' :: "So: ".toList))
    let obj := "\x7b\"score\": \" 8 \", \"verdict\": \"No\"\x7d".toList
    let reply := String.ofList (before ++ obj ++ " or \x7bnot\n\x60\x60\x60".toList)
    let w := Collaborators.scripted default [reply]
    StructuredReply.Lead before ∧ obj.head? = some '{' ∧
      Replied w [] .contextScoring [("context", "")] reply ∧
      Replied w [] .filterQuestion [("question", "Why?")] reply ∧
      ∃ m, (Json.parse? obj).bind StructuredReply.members? = some m ∧
        StructuredReply.load reply = ⟨m, []⟩ ∧
        (∃ verdict, (NodeFilter.evaluate ⟨NodeFilter.defaultThreshold⟩ default w () []).1 =
          .value verdict ∧ verdict.passed = true) ∧
        (QuestionFilter.evaluate "Why?" w () []).1 = .value false := by
  intro before obj reply w
  have lead : StructuredReply.Lead before :=
    .fenced (List.all_eq_true.mp (by decide)) (by decide) (by decide)
  have opens : obj.head? = some '{' := by decide
  have scored : Replied w [] .contextScoring [("context", "")] reply :=
    ⟨_, _, rfl, rfl, rfl⟩
  have judged : Replied w [] .filterQuestion [("question", "Why?")] reply :=
    ⟨_, _, rfl, rfl, rfl⟩
  have bare : Replied (.scripted default [.ofList obj]) [] .contextScoring [("context", "")]
      (.ofList obj) := ⟨_, _, rfl, rfl, rfl⟩
  have decided : ((Json.parse? obj).bind StructuredReply.members?).any (fun m =>
      NodeFilter.defaultThreshold.le
          (((Entries.get? "score" m).bind Json.number?).getD .zero) = true ∧
        accepts m = false) = true := by
    decide +kernel
  obtain ⟨m, reads, members⟩ := Option.any_eq_true _ _ |>.mp decided
  obtain ⟨enough, refused⟩ := of_decide_eq_true members
  obtain ⟨loaded, nodes, questions⟩ := verdicts_ignore_wrapping (σ := Unit) lead opens reads
    " or \x7bnot\n\x60\x60\x60".toList
  obtain ⟨-, verdict, hverdict, -, passed⟩ :=
    nodes ⟨NodeFilter.defaultThreshold⟩ default w _ () [] [] scored bare
  obtain ⟨accepted, haccepted, no⟩ := questions "Why?" w () [] judged
  have hno : accepted = false := no.mpr ((accepts_eq_false_iff m).mp refused)
  refine ⟨lead, opens, scored, judged, m, reads, loaded, ⟨verdict, hverdict, passed.mpr enough⟩, ?_⟩
  rw [haccepted, hno]

end QuestionSynthesis
