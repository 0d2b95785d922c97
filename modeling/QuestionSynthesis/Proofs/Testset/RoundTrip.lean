import QuestionSynthesis.Proofs.RoundTrip
import QuestionSynthesis.Proofs.Timestamp
import QuestionSynthesis.Testset.Row

/-!
# Test sets that read back

A test set holds texts, whole numbers, names of kinds and moments, but no double, so nothing in it
depends on how literals are rounded. It comes back from its text as it was, provided that its whole
numbers fit a word and that its moments come back from theirs, and no other test set is ever read
(`testsets_round_trip`). Which moments do come back `Timestamp.readsBack_iff` tells.
-/

namespace QuestionSynthesis

open Json (Exact Reader Record StandsFor nestingLimit)

theorem Timestamp.standsFor {t : Timestamp} (h : t.ReadsBack) : StandsFor read t.toJson t := by
  have leaf : t.toJson.isLeaf = true := rfl
  have plain : Json.LeafPlain t.toJson := trivial
  refine Json.standsFor_leaf leaf plain fun room => ?_
  rw [read, toJson, Json.Reader.string, Option.bind_some, String.toList_ofList]
  exact h

theorem Timestamp.read_ensures : Reader.Ensures read ReadsBack := by
  intro room j t h
  obtain ⟨s, -, h⟩ := Option.bind_eq_some_iff.mp h
  exact readsBack_iff.mpr (valid_of_parse? h)

structure TestsetRow.Writable (r : TestsetRow) : Prop where
  contextIds : ∀ id ∈ r.contextIds, NodeId.Fits id
  tries : r.tries ≤ wordMax
  generatedAt : r.generatedAt.ReadsBack

theorem TestsetRow.standsFor {r : TestsetRow} (h : r.Writable) : StandsFor read r.toJson r := by
  have question := Json.standsFor_string r.question
  have reference := Json.standsFor_string r.reference
  have contexts := Json.standsFor_list fun s (_ : s ∈ r.contexts) => Json.standsFor_string s
  have contextIds := Json.standsFor_list fun id hid => NodeId.standsFor (h.contextIds id hid)
  have kind := Evolution.Kind.standsFor r.kind
  have tries := Json.standsFor_word h.tries
  have generatedAt := Timestamp.standsFor h.generatedAt
  refine (Record.standsFor fieldNames rfl (by decide) (fun opened => ?_) ?_).1
  · simp only [Option.bind_eq_bind, Option.bind_some, opened.required "question" rfl question,
      opened.required "reference" rfl reference, opened.required "contexts" rfl contexts,
      opened.required "context_ids" rfl contextIds, opened.required "evolution_type" rfl kind,
      opened.required "tries" rfl tries, opened.required "generated_at" rfl generatedAt]
    rfl
  · simp [question.plain, reference.plain, contexts.plain, contextIds.plain, kind.plain, tries.plain,
      generatedAt.plain]

theorem TestsetRow.read_ensures : Reader.Ensures read Writable := by
  intro room j r h
  obtain ⟨fields, -, h⟩ := Option.bind_eq_some_iff.mp h
  obtain ⟨question, -, h⟩ := Option.bind_eq_some_iff.mp h
  obtain ⟨reference, -, h⟩ := Option.bind_eq_some_iff.mp h
  obtain ⟨contexts, -, h⟩ := Option.bind_eq_some_iff.mp h
  obtain ⟨contextIds, ids, h⟩ := Option.bind_eq_some_iff.mp h
  obtain ⟨kind, -, h⟩ := Option.bind_eq_some_iff.mp h
  obtain ⟨tries, htries, h⟩ := Option.bind_eq_some_iff.mp h
  obtain ⟨generatedAt, moment, h⟩ := Option.bind_eq_some_iff.mp h
  cases h
  have fits : Reader.Ensures NodeId.read NodeId.Fits := Reader.word_ensures.map
  exact ⟨fits.list.required ids, Reader.word_ensures.required htries,
    Timestamp.read_ensures.required moment⟩

theorem TestsetRow.exact (r : TestsetRow) : Exact r.toJson := by
  have contexts : Exact (.array (r.contexts.map .string)) :=
    .array (List.forall_mem_map.mpr fun _ _ => .leaf rfl trivial)
  have contextIds : Exact (.array (r.contextIds.map NodeId.toJson)) :=
    .array (List.forall_mem_map.mpr fun _ _ => .leaf rfl trivial)
  refine .object ?_
  simp only [List.forall_mem_cons]
  exact ⟨.leaf rfl trivial, .leaf rfl trivial, contexts, contextIds, .leaf rfl trivial,
    .leaf rfl trivial, .leaf rfl trivial, by simp⟩

theorem TestsetRow.depth_le (r : TestsetRow) : r.toJson.depth ≤ 2 := by
  have contexts : (Json.array (r.contexts.map .string)).depth ≤ 1 :=
    Json.depth_array_le.mpr (List.forall_mem_map.mpr fun _ _ => Nat.le_refl 0)
  have contextIds : (Json.array (r.contextIds.map NodeId.toJson)).depth ≤ 1 :=
    Json.depth_array_le.mpr (List.forall_mem_map.mpr fun _ _ => Nat.le_refl 0)
  refine Json.depth_object_le.mpr ?_
  simp only [List.forall_mem_cons]
  exact ⟨Nat.zero_le 1, Nat.zero_le 1, contexts, contextIds, Nat.zero_le 1, Nat.zero_le 1,
    Nat.zero_le 1, by simp⟩

theorem SkippedRow.standsFor (s : SkippedRow) : StandsFor read s.toJson s := by
  have kind := Evolution.Kind.standsFor s.kind
  have reason := Json.standsFor_string s.reason
  refine (Record.standsFor fieldNames rfl (by decide) (fun opened => ?_) ?_).1
  · simp only [Option.bind_eq_bind, Option.bind_some, opened.required "evolution_type" rfl kind,
      opened.required "reason" rfl reason]
    rfl
  · simp [kind.plain, reason.plain]

theorem SkippedRow.exact (s : SkippedRow) : Exact s.toJson := by
  refine .object ?_
  simp only [List.forall_mem_cons]
  exact ⟨.leaf rfl trivial, .leaf rfl trivial, by simp⟩

theorem SkippedRow.depth_le (s : SkippedRow) : s.toJson.depth ≤ 2 := by
  refine Json.depth_object_le.mpr ?_
  simp only [List.forall_mem_cons]
  exact ⟨Nat.zero_le 1, Nat.zero_le 1, by simp⟩

namespace Testset

def Writable (t : Testset) : Prop := ∀ r ∈ t.rows, r.Writable

theorem standsFor {t : Testset} (h : t.Writable) : StandsFor read t.toJson t := by
  have rows := Json.standsFor_list fun r hr => TestsetRow.standsFor (h r hr)
  have skipped := Json.standsFor_list fun s (_ : s ∈ t.skipped) => SkippedRow.standsFor s
  refine (Record.standsFor fieldNames rfl (by decide) (fun opened => ?_) ?_).1
  · simp only [Option.bind_eq_bind, Option.bind_some, opened.required "rows" rfl rows,
      opened.required "skipped" rfl skipped]
    rfl
  · simp [rows.plain, skipped.plain]

theorem exact (t : Testset) : Exact t.toJson := by
  refine .object ?_
  simp only [List.forall_mem_cons]
  exact ⟨.array (List.forall_mem_map.mpr fun r _ => r.exact),
    .array (List.forall_mem_map.mpr fun s _ => s.exact), by simp⟩

theorem depth_le (t : Testset) : t.toJson.depth ≤ 4 := by
  refine Json.depth_object_le.mpr ?_
  simp only [List.forall_mem_cons]
  exact ⟨Json.depth_array_le.mpr (List.forall_mem_map.mpr fun r _ => r.depth_le),
    Json.depth_array_le.mpr (List.forall_mem_map.mpr fun s _ => s.depth_le), by simp⟩

theorem read_ensures : Reader.Ensures read Writable := by
  intro room j t h
  obtain ⟨fields, -, h⟩ := Option.bind_eq_some_iff.mp h
  obtain ⟨rows, hrows, h⟩ := Option.bind_eq_some_iff.mp h
  obtain ⟨skipped, -, h⟩ := Option.bind_eq_some_iff.mp h
  cases h
  exact TestsetRow.read_ensures.list.required hrows

/-- The text of a test set is one of its document, and gives the test set again: the rows and the
reasons in their order, each as it was. What the hypothesis asks for holds of whatever is read from
any text, so a test set that was read once is written and read again without loss. -/
theorem testsets_round_trip (t : Testset) :
    (t.Writable → Json.parse? t.text.toList = some t.toJson ∧ ofText t.text = .ok t) ∧
      ∀ text, ofText text = .ok t → t.Writable := by
  refine ⟨fun h => ?written, fun text h => ?read⟩
  case written =>
    have stands := standsFor h
    have shallow : t.toJson.depth ≤ nestingLimit := t.depth_le.trans (by decide)
    have decoded : Json.decode read t.text = some t :=
      stands.decode_toPretty (.refl _) shallow t.exact
    refine ⟨Json.parse?_toPretty stands.plain t.exact, ?_⟩
    rw [ofText, decoded]
  case read =>
    unfold ofText at h
    split at h
    next decoded =>
      cases h
      obtain ⟨j, -, reads⟩ := Option.bind_eq_some_iff.mp decoded
      exact read_ensures _ _ _ reads
    next => cases h

/-- Texts with quotes, backslashes, control characters and line ends, the largest words, a moment in
a leap second and one before the first year. -/
def strangeTestset : Testset where
  rows := [
    { question := "\"Why\" \\ and\nwhen\x00\x1f?", reference := "", contexts := ["\t\r", "", "\u2028 é"]
      contextIds := [⟨wordMax⟩, ⟨0⟩, ⟨wordMax⟩], kind := .multiContext, tries := wordMax
      generatedAt := ⟨⟨2016, 12, 31⟩, 86399, 1500000000⟩ },
    { question := "", reference := "\\\"", contexts := [], contextIds := [], kind := .simple
      tries := 0, generatedAt := ⟨⟨-1, 2, 28⟩, 3661, 7⟩ }]
  skipped := [⟨.multiContext, "no \"answer\"\n"⟩, ⟨.simple, ""⟩]

theorem strangeTestset_writable : strangeTestset.Writable := by
  have leap : Timestamp.Valid ⟨⟨2016, 12, 31⟩, 86399, 1500000000⟩ :=
    ⟨by decide, by decide, .inr (by decide)⟩
  have ancient : Timestamp.Valid ⟨⟨-1, 2, 28⟩, 3661, 7⟩ := ⟨by decide, by decide, .inl (by decide)⟩
  simp only [Writable, strangeTestset, List.forall_mem_cons]
  exact ⟨⟨by simp [NodeId.Fits], Nat.le_refl wordMax, leap.readsBack⟩,
    ⟨by simp, Nat.zero_le wordMax, ancient.readsBack⟩, by simp⟩

theorem testsets_round_trip_strange :
    strangeTestset.Writable ∧ ofText strangeTestset.text = .ok strangeTestset :=
  ⟨strangeTestset_writable, ((testsets_round_trip strangeTestset).1 strangeTestset_writable).2⟩

end Testset

end QuestionSynthesis
