import QuestionSynthesis.Proofs.Corpus.History

/-!
# What linking leaves behind

Only the way out of a pair can fail, since the way back has the same ends. So a chain with an unknown
chunk keeps the pairs before it (`linkSequence_of_unknown`), and a similarity is linked both ways or
not at all.
-/

namespace QuestionSynthesis

namespace Assembly

variable {a : Assembly} {x y id : NodeId} {chunks before after : List NodeId}

def Link.pairs (chunks : List NodeId) : List Link :=
  (chunks.zip chunks.tail).flatMap fun p => [⟨p.1, p.2, "NEXT", []⟩, ⟨p.2, p.1, "PREV", []⟩]

theorem Link.pairs_eq_chain (chunks : List NodeId) : pairs chunks = chain chunks := by
  induction chunks with
  | nil => rfl
  | cons x r ih =>
    cases r with
    | nil => rfl
    | cons y r =>
      rw [chain, ← ih]
      rfl

theorem Link.length_pairs (chunks : List NodeId) :
    (pairs chunks).length = 2 * (chunks.length - 1) := by
  rw [pairs_eq_chain]
  induction chunks with
  | nil => rfl
  | cons x r ih =>
    cases r with
    | nil => rfl
    | cons y r =>
      rw [chain, List.length_append, ih]
      simp only [both, List.length_cons, List.length_nil]
      omega

theorem linkSequence_cons_cons (hx : a.has x = true) (hy : a.has y = true) (r : List NodeId) :
    a.linkSequence (x :: y :: r) = (a.linking (Link.pairs [x, y])).linkSequence (y :: r) := by
  rw [linkSequence, relateBoth_ok hx hy, relating_edgesBoth]
  rfl

theorem Link.pairs_cons_cons (x y : NodeId) (r : List NodeId) :
    pairs (x :: y :: r) = pairs [x, y] ++ pairs (y :: r) := rfl

theorem linkSequence_of_known (known : ∀ id ∈ chunks, a.has id = true) :
    a.linkSequence chunks = (.ok (), a.linking (Link.pairs chunks)) := by
  induction chunks generalizing a with
  | nil => exact congrArg (Prod.mk _) linking_nil.symm
  | cons x r ih =>
    obtain ⟨hx, rest⟩ := List.forall_mem_cons.mp known
    cases r with
    | nil => exact congrArg (Prod.mk _) linking_nil.symm
    | cons y r =>
      have later := ih (a := a.linking (Link.pairs [x, y])) rest
      rw [linkSequence_cons_cons hx (rest y List.mem_cons_self), later, linking_linking,
        Link.pairs_cons_cons x y r]

theorem linkSequence_of_unknown (known : ∀ x ∈ before, a.has x = true) (unknown : a.has id = false)
    (long : 2 ≤ (before ++ id :: after).length) :
    a.linkSequence (before ++ id :: after) =
      (.error (if before = [] then .unknownSource id else .unknownTarget id),
        a.linking (Link.pairs before)) := by
  induction before generalizing a with
  | nil =>
    cases after with
    | nil => simp at long
    | cons y r =>
      rw [List.nil_append, linkSequence, relateBoth_refused (by simp [unknown])]
      simp [fault, unknown, Link.pairs]
  | cons x before ih =>
    obtain ⟨hx, rest⟩ := List.forall_mem_cons.mp known
    cases before with
    | nil =>
      rw [List.singleton_append, linkSequence, relateBoth_refused (by simp [unknown])]
      simp [fault, hx, Link.pairs]
    | cons y before =>
      have later := ih (a := a.linking (Link.pairs [x, y])) rest unknown
        (by simp only [List.length_append, List.length_cons]; omega)
      rw [List.cons_append] at later
      rw [List.cons_append, List.cons_append,
        linkSequence_cons_cons hx (rest y List.mem_cons_self), later, linking_linking,
        Link.pairs_cons_cons x y before]
      rfl

theorem linkSimilar_eq (a : Assembly) (x y : NodeId) (score : Binary64) :
    a.linkSimilar x y score =
      if a.has x = true ∧ a.has y = true then
        (.ok (), a.linking [⟨x, y, "SIMILAR", [("score", .double score)]⟩,
          ⟨y, x, "SIMILAR", [("score", .double score)]⟩])
      else (.error (a.fault x y), a) := by
  by_cases known : a.has x = true ∧ a.has y = true
  · rw [if_pos known, linkSimilar, relateBoth_ok known.1 known.2, relating_edgesBoth]
    rfl
  · rw [if_neg known, linkSimilar, relateBoth_refused known]

theorem linkSequence_cases (a : Assembly) (chunks : List NodeId) :
    ((chunks.length < 2 ∨ ∀ id ∈ chunks, a.has id = true) ∧
      a.linkSequence chunks = (.ok (), a.linking (Link.pairs chunks))) ∨
    ∃ before id after, chunks = before ++ id :: after ∧ 2 ≤ chunks.length ∧
      (∀ x ∈ before, a.has x = true) ∧ a.has id = false ∧
      a.linkSequence chunks =
        (.error (if before = [] then .unknownSource id else .unknownTarget id),
          a.linking (Link.pairs before)) := by
  cases h : chunks.find? (fun id => !a.has id) with
  | none =>
    have known : ∀ id ∈ chunks, a.has id = true := by simpa using h
    exact .inl ⟨.inr known, linkSequence_of_known known⟩
  | some id =>
    obtain ⟨unknown, before, after, rfl, known⟩ := List.find?_eq_some_iff_append.mp h
    simp only [Bool.not_not, Bool.not_eq_true'] at known unknown
    rcases Nat.lt_or_ge (before ++ id :: after).length 2 with short | long
    · -- without a pair nothing asks whether the chunk is known
      obtain ⟨rfl, rfl⟩ : before = [] ∧ after = [] := by
        simp only [List.length_append, List.length_cons] at short
        constructor <;> (apply List.length_eq_zero_iff.mp; omega)
      exact .inl ⟨.inl short, congrArg (Prod.mk _) linking_nil.symm⟩
    · exact .inr ⟨before, id, after, rfl, long, known, unknown,
        linkSequence_of_unknown known unknown long⟩

/-- A chain is linked as a whole, or up to its first unknown chunk, and then fails with the name of
that chunk. A similarity is linked both ways or not at all. Nothing else is added, and nothing that
is there is changed. -/
theorem links_left_behind (a : Assembly) :
    (∀ chunks, (∃ e, (a.linkSequence chunks).1 = .error e) ↔
      2 ≤ chunks.length ∧ ∃ id ∈ chunks, a.has id = false) ∧
    (∀ chunks, (a.linkSequence chunks).1 = .ok () →
      (a.linkSequence chunks).2 = a.linking (Link.pairs chunks)) ∧
    (∀ before id after, 2 ≤ (before ++ id :: after).length → (∀ x ∈ before, a.has x = true) →
      a.has id = false → a.linkSequence (before ++ id :: after) =
        (.error (.notFound (if before = [] then s!"Source node {id.val}"
          else s!"Target node {id.val}")), a.linking (Link.pairs before))) ∧
    (∀ chunks, (Link.pairs chunks).length = 2 * (chunks.length - 1)) ∧
    ∀ x y score, a.linkSimilar x y score =
      if a.has x = true ∧ a.has y = true then
        (.ok (), a.linking [⟨x, y, "SIMILAR", [("score", .double score)]⟩,
          ⟨y, x, "SIMILAR", [("score", .double score)]⟩])
      else (.error (a.fault x y), a) := by
  refine ⟨fun chunks => ?fails, fun chunks linked => ?whole, ?broken, Link.length_pairs,
    a.linkSimilar_eq⟩
  case fails =>
    rcases a.linkSequence_cases chunks with
      ⟨whole, h⟩ | ⟨before, id, after, rfl, long, known, unknown, h⟩
    · rw [h]
      refine iff_of_false (fun ⟨e, he⟩ => by cases he) ?_
      rintro ⟨long, id, hid, unknown⟩
      rcases whole with short | known
      · omega
      · exact Bool.false_ne_true (unknown.symm.trans (known id hid))
    · rw [h]
      exact iff_of_true ⟨_, rfl⟩ ⟨long, id, by simp, unknown⟩
  case whole =>
    rcases a.linkSequence_cases chunks with ⟨-, h⟩ | ⟨_, _, _, -, -, -, -, h⟩
    · rw [h]
    · rw [h] at linked
      cases linked
  case broken =>
    intro before id after long known unknown
    rw [linkSequence_of_unknown known unknown long]
    split <;> rfl

theorem links_left_behind_broken :
    let a := (empty 1).performAll [.addChunk "row" "one", .addChunk "row" "two"]
    (∀ x ∈ [(⟨1⟩ : NodeId), ⟨2⟩], a.has x = true) ∧ a.has ⟨9⟩ = false ∧
      a.linkSequence [⟨1⟩, ⟨2⟩, ⟨9⟩, ⟨1⟩] = (.error (.notFound "Target node 9"),
        a.linking [⟨⟨1⟩, ⟨2⟩, "NEXT", []⟩, ⟨⟨2⟩, ⟨1⟩, "PREV", []⟩]) := by
  intro a
  have known : ∀ x ∈ [(⟨1⟩ : NodeId), ⟨2⟩], a.has x = true := by decide +kernel
  have unknown : a.has ⟨9⟩ = false := by decide +kernel
  obtain ⟨-, -, broken, -⟩ := links_left_behind a
  exact ⟨known, unknown, broken [⟨1⟩, ⟨2⟩] ⟨9⟩ [⟨1⟩] (by decide) known unknown⟩

end Assembly

end QuestionSynthesis
