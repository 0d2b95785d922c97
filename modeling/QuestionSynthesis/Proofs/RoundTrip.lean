import QuestionSynthesis.Dialogue.Completion
import QuestionSynthesis.Evolution.Evolved
import QuestionSynthesis.Evolution.Settings
import QuestionSynthesis.Proofs.Corpus.RoundTrip

/-!
# Everything that is written is read back

Nodes, relationships, queries, settings, kept questions and completions come back from their
documents as they were, whatever the order in which the entries of a map were written
(`documents_round_trip`). Nothing is lost on the way through a tree. On the way through a text a
double may be, since the reader of literals is not exact; apart from that nothing is lost there
either.
-/

namespace QuestionSynthesis

open Json (Exact Reader Record Shuffled StandsFor decode nestingLimit)

theorem QuestionStyle.standsFor (s : QuestionStyle) : StandsFor read s.toJson s :=
  Json.standsFor_choice (by cases s <;> rfl)

theorem QuestionLength.standsFor (l : QuestionLength) : StandsFor read l.toJson l :=
  Json.standsFor_choice (by cases l <;> rfl)

namespace Evolution

theorem Kind.standsFor (k : Kind) : StandsFor read k.toJson k :=
  Json.standsFor_choice (by cases k <;> rfl)

structure Settings.Writable (s : Settings) : Prop where
  maxTries : s.maxTries ≤ wordMax
  maxResamples : ∀ n ∈ s.maxResamples, n ≤ wordMax

/-- A budget without a bound is written as `null`, and so does not become the default. -/
theorem Settings.standsFor_maxResamples {s : Settings} (h : s.Writable) :
    StandsFor (Reader.nullable Reader.word) (.ofOption (fun n : Nat => .int n) s.maxResamples)
      s.maxResamples :=
  Json.standsFor_ofOption (fun n hn => Json.standsFor_word (h.maxResamples n hn))
    (fun _ _ => Json.noConfusion)

theorem Settings.standsFor {s : Settings} (h : s.Writable) : StandsFor read s.toJson s := by
  have maxTries := Json.standsFor_word h.maxTries
  have maxResamples := standsFor_maxResamples h
  have style := QuestionStyle.standsFor s.style
  have length := QuestionLength.standsFor s.length
  refine (Record.standsFor fieldNames rfl (by decide) (fun opened => ?_) ?_).2
  · simp only [Option.bind_eq_bind, Option.bind_some, opened.orDefault "max_tries" rfl maxTries,
      opened.orDefault "max_resamples" rfl maxResamples, opened.orDefault "style" rfl style,
      opened.orDefault "length" rfl length]
    rfl
  · simp [maxTries.plain, maxResamples.plain, style.plain, length.plain]

end Evolution

structure Evolved.Writable (e : Evolved) : Prop where
  contexts : ∀ n ∈ e.contexts, Node.Writable n
  root : e.root.Fits
  tries : e.tries ≤ wordMax
  resamples : e.resamples ≤ wordMax

theorem Evolved.standsFor {e : Evolved} (h : e.Writable) : StandsFor read e.toJson e := by
  have question := Json.standsFor_string e.question
  have contexts := Json.standsFor_list fun n hn => Node.standsFor (h.contexts n hn)
  have root := NodeId.standsFor h.root
  have kind := Evolution.Kind.standsFor e.kind
  have tries := Json.standsFor_word h.tries
  have resamples := Json.standsFor_word h.resamples
  refine (Record.standsFor fieldNames rfl (by decide) (fun opened => ?_) ?_).1
  · simp only [Option.bind_eq_bind, Option.bind_some, opened.required "question" rfl question,
      opened.required "contexts" rfl contexts, opened.required "root" rfl root,
      opened.required "kind" rfl kind, opened.required "tries" rfl tries,
      opened.required "resamples" rfl resamples]
    rfl
  · simp [question.plain, contexts.plain, root.plain, kind.plain, tries.plain, resamples.plain]

structure TokenUsage.Writable (u : TokenUsage) : Prop where
  promptTokens : u.promptTokens ≤ wordMax
  completionTokens : u.completionTokens ≤ wordMax
  totalTokens : u.totalTokens ≤ wordMax

theorem TokenUsage.standsFor {u : TokenUsage} (h : u.Writable) : StandsFor read u.toJson u := by
  have prompt := Json.standsFor_word h.promptTokens
  have completion := Json.standsFor_word h.completionTokens
  have total := Json.standsFor_word h.totalTokens
  refine (Record.standsFor fieldNames rfl (by decide) (fun opened => ?_) ?_).1
  · simp only [Option.bind_eq_bind, Option.bind_some, opened.required "prompt_tokens" rfl prompt,
      opened.required "completion_tokens" rfl completion,
      opened.required "total_tokens" rfl total]
    rfl
  · simp [prompt.plain, completion.plain, total.plain]

theorem Completion.standsFor (c : Completion) : StandsFor read c.toJson c := by
  have text := Json.standsFor_string c.text
  have finishReason := Json.standsFor_ofOption_string c.finishReason
  refine (Record.standsFor fieldNames rfl (by decide) (fun opened => ?_) ?_).1
  · simp only [Option.bind_eq_bind, Option.bind_some, opened.required "text" rfl text,
      opened.optional "finish_reason" rfl finishReason]
    rfl
  · simp [text.plain, finishReason.plain]

def Completions.Writable (c : Completions) : Prop := c.usage.Writable

theorem Completions.standsFor {c : Completions} (h : c.Writable) : StandsFor read c.toJson c := by
  have generations := Json.standsFor_list fun g (_ : g ∈ c.generations) => Completion.standsFor g
  have usage := TokenUsage.standsFor h
  refine (Record.standsFor fieldNames rfl (by decide) (fun opened => ?_) ?_).1
  · simp only [Option.bind_eq_bind, Option.bind_some,
      opened.required "generations" rfl generations, opened.required "usage" rfl usage]
    rfl
  · simp [generations.plain, usage.plain]

/-- Writable values come back from their documents within the nesting limit, whatever the order of
members: from the trees, and, if the literals of all doubles in them read as these doubles, from the
texts. -/
def RoundTrips {α : Type} (writable : α → Prop) (toJson : α → Json) (read : Reader α) : Prop :=
  ∀ a j, writable a → Shuffled (toJson a) j → j.depth ≤ nestingLimit →
    read nestingLimit j = some a ∧
    (Exact j → decode read j.toCompact = some a ∧ decode read j.toPretty = some a)

theorem Json.StandsFor.roundTrips {α : Type} {writable : α → Prop} {toJson : α → Json}
    {read : Reader α} (h : ∀ {a}, writable a → StandsFor read (toJson a) a) :
    RoundTrips writable toJson read :=
  fun _ _ ha shuffled deep => ⟨(h ha).reads shuffled deep, fun exact =>
    ⟨(h ha).decode_toCompact shuffled deep exact, (h ha).decode_toPretty shuffled deep exact⟩⟩

/-- Whatever is written as a document is read back as it was. In particular values keep their kind,
and what is absent stays absent. -/
theorem documents_round_trip :
    RoundTrips Value.Writable Value.toJson Value.read ∧
    RoundTrips Node.Writable Node.toJson Node.read ∧
    RoundTrips Relationship.Writable Relationship.toJson Relationship.read ∧
    RoundTrips NodeQuery.Writable NodeQuery.toJson NodeQuery.read ∧
    RoundTrips RelationshipQuery.Writable RelationshipQuery.toJson RelationshipQuery.read ∧
    RoundTrips PropertyPredicate.Writable PropertyPredicate.toJson PropertyPredicate.read ∧
    RoundTrips TargetFilter.Writable TargetFilter.toJson TargetFilter.read ∧
    RoundTrips Evolution.Settings.Writable Evolution.Settings.toJson Evolution.Settings.read ∧
    RoundTrips Evolved.Writable Evolved.toJson Evolved.read ∧
    RoundTrips TokenUsage.Writable TokenUsage.toJson TokenUsage.read ∧
    RoundTrips Completions.Writable Completions.toJson Completions.read :=
  ⟨Json.StandsFor.roundTrips Value.standsFor, Json.StandsFor.roundTrips Node.standsFor,
    Json.StandsFor.roundTrips Relationship.standsFor, Json.StandsFor.roundTrips NodeQuery.standsFor,
    Json.StandsFor.roundTrips RelationshipQuery.standsFor,
    Json.StandsFor.roundTrips PropertyPredicate.standsFor,
    Json.StandsFor.roundTrips TargetFilter.standsFor,
    Json.StandsFor.roundTrips Evolution.Settings.standsFor, Json.StandsFor.roundTrips Evolved.standsFor,
    Json.StandsFor.roundTrips TokenUsage.standsFor, Json.StandsFor.roundTrips Completions.standsFor⟩

/-- A node with values that are easily mistaken for others: numbers and `null` as texts, whole
doubles, minus zero, a list and a map without items, and no level. -/
def mixedNode : Node where
  id := ⟨wordMax⟩
  docId := "null"
  content := "a \"quoted\" \\ line\n"
  properties := [("count", .int (-7)), ("empty", .list []), ("map", .map []),
    ("nothing", .string "null"), ("number", .string "1.0"), ("one", .double ⟨0x3ff0000000000000⟩),
    ("tree", .map [("items", .list [.null, .double ⟨0x8000000000000000⟩])])]

theorem mixedNode_writable : mixedNode.Writable where
  id := Nat.le_refl wordMax
  properties := by
    refine ⟨by unfold mixedNode Entries.Sorted; decide, ?_⟩
    simp only [mixedNode, List.forall_mem_cons]
    have items : Value.Writable (.list [.null, .double ⟨0x8000000000000000⟩]) :=
      .list (List.forall_mem_cons.mpr ⟨.null, List.forall_mem_singleton.mpr (.double (by decide))⟩)
    exact ⟨.int _, .list (by simp), .map .nil (by simp), .string _, .string _,
      .double (by decide), .map (List.pairwise_singleton _ _) (List.forall_mem_singleton.mpr items),
      by simp⟩

theorem mixedNode_exact : Exact mixedNode.toJson := by
  have one : Json.LeafExact (.double ⟨0x3ff0000000000000⟩) := by decide +kernel
  have zero : Json.LeafExact (.double ⟨0x8000000000000000⟩) := by decide +kernel
  have items : Exact (Value.toJson (.list [.null, .double ⟨0x8000000000000000⟩])) :=
    .array (List.forall_mem_cons.mpr
      ⟨.leaf rfl trivial, List.forall_mem_singleton.mpr (.leaf rfl zero)⟩)
  have properties : Exact (Properties.toJson mixedNode.properties) := by
    refine .object ?_
    simp only [mixedNode, Value.toJsonEntries_eq, List.map_cons, List.forall_mem_cons]
    exact ⟨.leaf rfl trivial, .array (by simp), .object (by simp), .leaf rfl trivial,
      .leaf rfl trivial, .leaf rfl one, .object (List.forall_mem_singleton.mpr items), by simp⟩
  refine .object ?_
  simp only [List.forall_mem_cons]
  exact ⟨.leaf rfl trivial, .leaf rfl trivial, .leaf rfl trivial, .leaf rfl trivial,
    .leaf rfl trivial, properties, by simp⟩

theorem documents_round_trip_mixed :
    decode Node.read mixedNode.toJson.toCompact = some mixedNode ∧
    decode Node.read mixedNode.toJson.toPretty = some mixedNode ∧
    decode Evolution.Settings.read
      (Evolution.Settings.toJson { maxResamples := none }).toCompact =
        some { maxResamples := none } := by
  obtain ⟨-, nodes, -, -, -, -, -, settings, -⟩ := documents_round_trip
  obtain ⟨-, node⟩ := nodes mixedNode _ mixedNode_writable (.refl _) (by decide)
  obtain ⟨compact, pretty⟩ := node mixedNode_exact
  obtain ⟨-, unbounded⟩ :=
    settings { maxResamples := none } _ ⟨by decide, by simp⟩ (.refl _) (by decide)
  have exact : Exact (Evolution.Settings.toJson { maxResamples := none }) := by
    refine .object ?_
    simp only [List.forall_mem_cons]
    exact ⟨.leaf rfl trivial, .leaf rfl trivial, .leaf rfl trivial, .leaf rfl trivial, by simp⟩
  exact ⟨compact, pretty, (unbounded exact).1⟩

end QuestionSynthesis
