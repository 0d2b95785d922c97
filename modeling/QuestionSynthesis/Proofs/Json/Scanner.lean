import Mathlib.Tactic.SplitIfs
import QuestionSynthesis.Json.Scanner

/-!
# Containers in the text

A scanner inside a container stays inside until the character that closes its outermost one
(`Closes`). What follows that character has no part in the value, so a container is read in the same
way whether the text ends with it or goes on (`parseFront?_brace`, `parse?_brace`), and a document
that is an object is one that begins with an opening brace (`parse?_object`).
-/

namespace QuestionSynthesis

namespace Json

def isLeaf : Json → Bool
  | array _ | object _ => false
  | _ => true

def Frame.closing : Frame → Char
  | .array _ => ']'
  | .object _ | .entry .. => '}'

namespace Scanner

structure Within (b : Char) (s : Scanner) : Prop where
  outermost : s.stack.getLast?.map Frame.closing = some b
  unfinished : ∀ v, s.stand ≠ .finished v

def Yields (b : Char) (v : Json) : Prop := b = ']' → ∃ items, v = .array items

/-- After a character inside a container: it is still open, or this was its closing character. -/
def Leads (b c : Char) (s : Scanner) : Prop :=
  Within b s ∨ c = b ∧ ∃ v, s = ⟨[], .finished v⟩ ∧ Yields b v

variable {s s' : Scanner} {b c : Char} {stack : List Frame}

theorem getLast?_replace {f g : Frame} (h : (f :: stack).getLast?.map Frame.closing = some b)
    (same : f.closing = g.closing) : (g :: stack).getLast?.map Frame.closing = some b := by
  cases stack with
  | nil => simpa [same] using h
  | cons => simpa [List.getLast?_cons_cons] using h

theorem getLast?_push (f : Frame) (h : stack.getLast?.map Frame.closing = some b) :
    (f :: stack).getLast?.map Frame.closing = some b := by
  cases stack with
  | nil => simp at h
  | cons => rw [List.getLast?_cons_cons]; exact h

theorem give_within (h : stack.getLast?.map Frame.closing = some b) (v : Json) :
    Within b (give stack v) := by
  cases stack with
  | nil => simp at h
  | cons f stack =>
    cases f with
    | array items => exact ⟨getLast?_replace h rfl, by simp [give]⟩
    | object members => exact ⟨getLast?_replace h rfl, by simp [give]⟩
    | entry members name => exact ⟨getLast?_replace h rfl, by simp [give]⟩

theorem giveText_within (h : stack.getLast?.map Frame.closing = some b) (isName : Bool)
    (units : List TextUnit) : Within b (giveText stack isName units) := by
  cases isName with
  | true => exact ⟨h, by simp [giveText]⟩
  | false => exact give_within h _

theorem openValue_within (h : stack.getLast?.map Frame.closing = some b)
    (opened : openValue stack c = some s) : Within b s := by
  unfold openValue at opened
  split_ifs at opened <;> cases opened
  · exact ⟨getLast?_push _ h, by simp⟩
  · exact ⟨getLast?_push _ h, by simp⟩
  all_goals exact ⟨h, by simp⟩

theorem close_leads (h : stack.getLast?.map Frame.closing = some b)
    (closed : close stack c = some s) : Leads b c s := by
  cases stack with
  | nil => simp at h
  | cons f stack =>
    have inner : ∀ v, stack ≠ [] → Within b (give stack v) := by
      intro v nonempty
      obtain ⟨g, stack, rfl⟩ := List.exists_cons_of_ne_nil nonempty
      rw [List.getLast?_cons_cons] at h
      exact give_within h v
    cases f with
    | array items =>
      simp only [close] at closed
      split_ifs at closed with hc
      cases closed
      by_cases nonempty : stack = []
      · subst nonempty
        simp only [List.getLast?_singleton, Option.map_some, Option.some.injEq] at h
        exact .inr ⟨hc.trans h, _, rfl, fun _ => ⟨_, rfl⟩⟩
      · exact .inl (inner _ nonempty)
    | object members =>
      simp only [close] at closed
      split_ifs at closed with hc
      cases closed
      by_cases nonempty : stack = []
      · subst nonempty
        simp only [List.getLast?_singleton, Option.map_some, Option.some.injEq] at h
        subst h
        exact .inr ⟨hc, _, rfl, by simp [Yields, Frame.closing]⟩
      · exact .inl (inner _ nonempty)
    | entry members name => cases closed

theorem separate_leads (h : stack.getLast?.map Frame.closing = some b)
    (separated : separate stack c = some s) : Leads b c s := by
  unfold separate at separated
  split_ifs at separated with comma
  · split at separated
    · cases separated
      exact .inl ⟨h, by simp⟩
    · cases separated
      exact .inl ⟨h, by simp⟩
    · cases separated
  · exact close_leads h separated

theorem punctuate_leads (h : Within b s) (step : s.punctuate c = some s') : Leads b c s' := by
  have outermost := h.outermost
  unfold punctuate at step
  by_cases space : isSpace c = true
  · rw [if_pos space] at step
    cases step
    exact .inl h
  · rw [if_neg space] at step
    cases hstand : s.stand with
    | value =>
      simp only [hstand] at step
      exact .inl (openValue_within outermost step)
    | valueOrClose =>
      simp only [hstand] at step
      split_ifs at step with hc
      · exact close_leads outermost step
      · exact .inl (openValue_within outermost step)
    | nameOrClose =>
      simp only [hstand] at step
      split_ifs at step with hc
      · cases step
        exact .inl ⟨outermost, by simp⟩
      · exact close_leads outermost step
    | name =>
      simp only [hstand] at step
      split_ifs at step with hc
      cases step
      exact .inl ⟨outermost, by simp⟩
    | colon name =>
      simp only [hstand] at step
      split at step
      · next members r hstack =>
        split_ifs at step with hc
        cases step
        rw [hstack] at outermost
        exact .inl ⟨getLast?_replace outermost rfl, by simp⟩
      · cases step
    | separator =>
      simp only [hstand] at step
      exact separate_leads outermost step
    | _ =>
      simp only [hstand] at step
      cases step

theorem step_leads (h : Within b s) (step : s.step c = some s') : Leads b c s' := by
  have outermost := h.outermost
  unfold Scanner.step at step
  cases hstand : s.stand with
  | word rest v =>
    cases rest with
    | nil =>
      simp only [hstand] at step
      cases step
    | cons d rest =>
      simp only [hstand] at step
      split_ifs at step with hc last <;> cases step
      · exact .inl (give_within outermost v)
      · exact .inl ⟨outermost, by simp⟩
  | numeral read =>
    simp only [hstand] at step
    split_ifs at step with hc
    · cases step
      exact .inl ⟨outermost, by simp⟩
    · obtain ⟨v, -, step⟩ := Option.bind_eq_some_iff.mp step
      exact punctuate_leads (give_within outermost v) step
  | text isName units =>
    simp only [hstand] at step
    split_ifs at step <;> cases step
    · exact .inl (giveText_within outermost isName units)
    · exact .inl ⟨outermost, by simp⟩
    · exact .inl ⟨outermost, by simp⟩
  | escape isName units =>
    simp only [hstand] at step
    split_ifs at step with hc
    · cases step
      exact .inl ⟨outermost, by simp⟩
    · obtain ⟨d, -, rfl⟩ := Option.map_eq_some_iff.mp step
      exact .inl ⟨outermost, by simp⟩
  | code isName units left read =>
    simp only [hstand] at step
    obtain ⟨d, -, rfl⟩ := Option.map_eq_some_iff.mp step
    by_cases last : left ≤ 1
    · simp only [last, if_true]
      exact .inl ⟨outermost, by simp⟩
    · simp only [last, if_false]
      exact .inl ⟨outermost, by simp⟩
  | _ =>
    simp only [hstand] at step
    exact punctuate_leads h step

theorem Within.result? (h : Within b s) : s.result? = none := by
  have nonempty : s.stack ≠ [] := by
    intro hnil
    have outermost := h.outermost
    simp [hnil] at outermost
  unfold Scanner.result?
  split
  · next v hstand => exact absurd hstand (h.unfinished v)
  · next read hstand hstack => exact absurd hstack nonempty
  · rfl

/-- Characters that a scanner reads inside a container, before the one that closes it and leaves
the value. -/
inductive Closes (b : Char) : Scanner → List Char → Json → Prop where
  | last {s v} (within : Within b s) (step : s.step b = some ⟨[], .finished v⟩) : Closes b s [] v
  | next {s c s' body v} (within : Within b s) (step : s.step c = some s')
      (closes : Closes b s' body v) : Closes b s (c :: body) v

variable {body rest text : List Char} {v : Json}

theorem Closes.run (h : Closes b s body v) : s.run (body ++ [b]) = some ⟨[], .finished v⟩ := by
  induction h with
  | last within step => simp [Scanner.run, step]
  | next within step closes ih => simpa [Scanner.run, step] using ih

theorem runToEnd_step (h : Within b s) (step : s.step c = some s') (rest : List Char) :
    s.runToEnd (c :: rest) = s'.runToEnd rest := by
  rw [runToEnd]
  split
  · next v hstand => exact absurd hstand (h.unfinished v)
  · rw [step, Option.bind_some]

theorem runToEnd_finished (v : Json) (rest : List Char) :
    runToEnd ⟨[], .finished v⟩ rest = some (v, rest) := by
  cases rest with
  | nil => rfl
  | cons => rfl

theorem Closes.runToEnd (h : Closes b s body v) (rest : List Char) :
    s.runToEnd (body ++ b :: rest) = some (v, rest) := by
  induction h with
  | last within step =>
    rw [List.nil_append, runToEnd_step within step, runToEnd_finished]
  | next within step closes ih =>
    rw [List.cons_append, runToEnd_step within step, ih]

theorem run_finished (v : Json) (h : run ⟨[], .finished v⟩ text = some s) :
    s = ⟨[], .finished v⟩ ∧ ∀ c ∈ text, isSpace c = true := by
  induction text with
  | nil => exact ⟨(Option.some.inj h).symm, by simp⟩
  | cons c text ih =>
    by_cases space : isSpace c = true
    · have step : Scanner.step ⟨[], .finished v⟩ c = some ⟨[], .finished v⟩ := by
        simp [Scanner.step, punctuate, space]
      rw [run, step] at h
      obtain ⟨hs, spaces⟩ := ih h
      exact ⟨hs, List.forall_mem_cons.mpr ⟨space, spaces⟩⟩
    · have step : Scanner.step ⟨[], .finished v⟩ c = none := by
        simp [Scanner.step, punctuate, space]
      rw [run, step] at h
      cases h

theorem Within.run (h : Within b s) (run : s.run text = some s') :
    Within b s' ∨ ∃ body spaces v, text = body ++ b :: spaces ∧ Closes b s body v ∧
      s' = ⟨[], .finished v⟩ ∧ ∀ c ∈ spaces, isSpace c = true := by
  induction text generalizing s with
  | nil => exact .inl (Option.some.inj run ▸ h)
  | cons c text ih =>
    obtain ⟨next, step, hrun⟩ := Option.bind_eq_some_iff.mp run
    cases step_leads h step with
    | inl within =>
      cases ih within hrun with
      | inl still => exact .inl still
      | inr closed =>
        obtain ⟨body, spaces, v, rfl, closes, rfl, hspaces⟩ := closed
        exact .inr ⟨c :: body, spaces, v, rfl, .next h step closes, rfl, hspaces⟩
    | inr closed =>
      obtain ⟨rfl, v, rfl, -⟩ := closed
      obtain ⟨rfl, hspaces⟩ := run_finished v hrun
      exact .inr ⟨[], text, v, rfl, .last h step, rfl, hspaces⟩

theorem Within.runToEnd (h : Within b s) (run : s.runToEnd text = some (v, rest)) :
    ∃ body, text = body ++ b :: rest ∧ Closes b s body v := by
  induction text generalizing s with
  | nil =>
    rw [Scanner.runToEnd, h.result?] at run
    cases run
  | cons c text ih =>
    cases step : s.step c with
    | none =>
      unfold Scanner.runToEnd at run
      split at run
      · next v hstand => exact absurd hstand (h.unfinished v)
      · rw [step] at run
        cases run
    | some next =>
      rw [runToEnd_step h step] at run
      cases step_leads h step with
      | inl within =>
        obtain ⟨body, rfl, closes⟩ := ih within run
        exact ⟨c :: body, rfl, .next h step closes⟩
      | inr closed =>
        obtain ⟨rfl, v', rfl, -⟩ := closed
        rw [runToEnd_finished] at run
        cases run
        exact ⟨[], rfl, .last h step⟩

theorem Closes.yields (h : Closes b s body v) : Yields b v := by
  induction h with
  | @last s v within step =>
    cases step_leads within step with
    | inl still => exact absurd rfl (still.unfinished v)
    | inr closed =>
      obtain ⟨-, v', heq, yields⟩ := closed
      cases heq
      exact yields
  | next within step closes ih => exact ih

/-- The scanner stands in or after a value that is not inside a container, nor one itself. -/
inductive AtLeaf : Scanner → Prop where
  | word {rest : List Char} {v : Json} (leaf : v.isLeaf = true) : AtLeaf ⟨[], .word rest v⟩
  | numeral {read} : AtLeaf ⟨[], .numeral read⟩
  | text {units} : AtLeaf ⟨[], .text false units⟩
  | escape {units} : AtLeaf ⟨[], .escape false units⟩
  | code {units left read} : AtLeaf ⟨[], .code false units left read⟩
  | finished {v : Json} (leaf : v.isLeaf = true) : AtLeaf ⟨[], .finished v⟩

theorem isLeaf_of_read? {literal : List Char} (h : Numeral.read? literal = some v) :
    v.isLeaf = true := by
  obtain ⟨n, -, rfl⟩ := Option.map_eq_some_iff.mp h
  simp only [Numeral.value]
  split_ifs
  · rfl
  · rfl
  · split <;> rfl
  · split <;> rfl

theorem giveText_atLeaf (units : List TextUnit) : AtLeaf (giveText [] false units) := by
  simp only [giveText, give, Bool.false_eq_true, if_false]
  cases (joinUnits units.reverse).map String.ofList with
  | none => exact .finished rfl
  | some s => exact .finished rfl

theorem AtLeaf.punctuate (leaf : v.isLeaf = true)
    (step : Scanner.punctuate ⟨[], .finished v⟩ c = some s) : AtLeaf s := by
  unfold Scanner.punctuate at step
  split_ifs at step
  cases step
  exact .finished leaf

theorem AtLeaf.step (h : AtLeaf s) (step : s.step c = some s') : AtLeaf s' := by
  cases h with
  | @word rest v leaf =>
    cases rest with
    | nil => cases step
    | cons d rest =>
      simp only [Scanner.step] at step
      split_ifs at step <;> cases step
      · exact .finished leaf
      · exact .word leaf
  | numeral =>
    simp only [Scanner.step] at step
    split_ifs at step
    · cases step
      exact .numeral
    · obtain ⟨v, hread, step⟩ := Option.bind_eq_some_iff.mp step
      exact AtLeaf.punctuate (isLeaf_of_read? hread) step
  | text =>
    simp only [Scanner.step] at step
    split_ifs at step <;> cases step
    · exact giveText_atLeaf _
    · exact .escape
    · exact .text
  | escape =>
    simp only [Scanner.step] at step
    split_ifs at step
    · cases step
      exact .code
    · obtain ⟨d, -, rfl⟩ := Option.map_eq_some_iff.mp step
      exact .text
  | @code units left read =>
    simp only [Scanner.step] at step
    obtain ⟨d, -, rfl⟩ := Option.map_eq_some_iff.mp step
    by_cases last : left ≤ 1
    · simp only [last, if_true]
      exact .text
    · simp only [last, if_false]
      exact .code
  | finished leaf => exact AtLeaf.punctuate leaf step

theorem AtLeaf.run (h : AtLeaf s) (run : s.run text = some s') : AtLeaf s' := by
  induction text generalizing s with
  | nil => exact Option.some.inj run ▸ h
  | cons c text ih =>
    obtain ⟨next, step, hrun⟩ := Option.bind_eq_some_iff.mp run
    exact ih (h.step step) hrun

theorem AtLeaf.result? (h : AtLeaf s) (result : s.result? = some v) : v.isLeaf = true := by
  cases h with
  | finished leaf =>
    cases result
    exact leaf
  | numeral => exact isLeaf_of_read? result
  | _ => cases result

def opened : Scanner := ⟨[.object []], .nameOrClose⟩

theorem opened_within : Within '}' opened := ⟨rfl, by simp [opened]⟩

theorem step_start (h : isSpace c = false) : start.step c = openValue [] c := by
  simp [start, Scanner.step, punctuate, h]

theorem step_start_space (h : isSpace c = true) : start.step c = some start := by
  simp [start, Scanner.step, punctuate, h]

theorem openValue_nil (h : openValue [] c = some s) :
    (c = '{' ∧ s = opened) ∨ Within ']' s ∨ AtLeaf s := by
  unfold openValue at h
  split_ifs at h with brace <;> cases h
  · exact .inl ⟨brace, rfl⟩
  · exact .inr (.inl ⟨rfl, by simp⟩)
  · exact .inr (.inr .text)
  · exact .inr (.inr (.word rfl))
  · exact .inr (.inr (.word rfl))
  · exact .inr (.inr (.word rfl))
  · exact .inr (.inr .numeral)

theorem Within.exists_closes (h : Within b s) (run : s.run text = some s')
    (result : s'.result? = some v) :
    ∃ body spaces, text = body ++ b :: spaces ∧ Closes b s body v ∧
      ∀ c ∈ spaces, isSpace c = true := by
  cases h.run run with
  | inl within =>
    rw [within.result?] at result
    cases result
  | inr closed =>
    obtain ⟨body, spaces, v', rfl, closes, rfl, hspaces⟩ := closed
    cases result
    exact ⟨body, spaces, rfl, closes, hspaces⟩

end Scanner

open Scanner (Closes opened opened_within)

variable {body rest text : List Char} {v : Json} {members : List (String × Json)}

theorem parse?_cons (c : Char) (text : List Char) :
    parse? (c :: text) = (Scanner.start.step c).bind fun s => (s.run text).bind Scanner.result? :=
  Option.bind_assoc ..

theorem parseFront?_brace :
    parseFront? ('{' :: text) = some (v, rest) ↔
      ∃ body, text = body ++ '}' :: rest ∧ Closes '}' opened body v := by
  have front : parseFront? ('{' :: text) = opened.runToEnd text := rfl
  rw [front]
  constructor
  · exact opened_within.runToEnd
  · intro h
    obtain ⟨body, rfl, closes⟩ := h
    exact closes.runToEnd rest

theorem parse?_brace : parse? ('{' :: (body ++ ['}'])) = some v ↔ Closes '}' opened body v := by
  have front : parse? ('{' :: (body ++ ['}'])) =
      (opened.run (body ++ ['}'])).bind Scanner.result? := rfl
  rw [front]
  constructor
  · intro h
    obtain ⟨s, run, result⟩ := Option.bind_eq_some_iff.mp h
    obtain ⟨body', spaces, htext, closes, hspaces⟩ := opened_within.exists_closes run result
    -- The run ends with a brace, so no spaces follow the one that closes the object.
    have nospace : spaces = [] := by
      rcases List.eq_nil_or_concat spaces with hnil | ⟨before, c, rfl⟩
      · exact hnil
      · have hsplit : body ++ ['}'] = (body' ++ '}' :: before) ++ [c] := by simpa using htext
        obtain rfl : '}' = c := by simpa using (List.append_inj' hsplit rfl).2
        cases hspaces '}' (by simp)
    subst nospace
    obtain rfl := List.append_cancel_right htext
    exact closes
  · intro closes
    rw [closes.run]
    rfl

theorem parse?_object (h : parse? text = some (.object members)) :
    ∃ spaces more rest, text = spaces ++ '{' :: more ∧ (∀ c ∈ spaces, Scanner.isSpace c = true) ∧
      parseFront? ('{' :: more) = some (.object members, rest) := by
  induction text with
  | nil => cases h
  | cons c text ih =>
    rw [parse?_cons] at h
    by_cases space : Scanner.isSpace c = true
    · rw [Scanner.step_start_space space] at h
      obtain ⟨spaces, more, rest, rfl, hspaces, front⟩ := ih h
      exact ⟨c :: spaces, more, rest, rfl, List.forall_mem_cons.mpr ⟨space, hspaces⟩, front⟩
    · rw [Scanner.step_start (Bool.eq_false_iff.mpr space)] at h
      obtain ⟨s, step, h⟩ := Option.bind_eq_some_iff.mp h
      obtain ⟨s', run, result⟩ := Option.bind_eq_some_iff.mp h
      obtain ⟨rfl, rfl⟩ | within | leaf := Scanner.openValue_nil step
      · obtain ⟨body, rest, rfl, closes, -⟩ := opened_within.exists_closes run result
        exact ⟨[], _, rest, rfl, by simp, parseFront?_brace.mpr ⟨body, rfl, closes⟩⟩
      · obtain ⟨body, rest, -, closes, -⟩ := within.exists_closes run result
        obtain ⟨items, hv⟩ := closes.yields rfl
        cases hv
      · cases (leaf.run run).result? result

end Json

end QuestionSynthesis
