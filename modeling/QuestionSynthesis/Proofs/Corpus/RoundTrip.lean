import QuestionSynthesis.Corpus.Document
import QuestionSynthesis.Proofs.Property.RoundTrip

/-!
# Nodes, relationships and queries in documents

The document of each of them stands for it, provided that identifiers fit a word and that the values
in it are writable.
-/

namespace QuestionSynthesis

open Json (Reader Record StandsFor)

variable {α : Type}

def NodeId.Fits (id : NodeId) : Prop := id.val ≤ wordMax

def RelationshipId.Fits (id : RelationshipId) : Prop := id.val ≤ wordMax

theorem NodeId.standsFor {id : NodeId} (h : id.Fits) : StandsFor read id.toJson id :=
  (Json.standsFor_word h).map NodeId.mk

theorem RelationshipId.standsFor {id : RelationshipId} (h : id.Fits) :
    StandsFor read id.toJson id :=
  (Json.standsFor_word h).map RelationshipId.mk

theorem NodeLabel.standsFor (l : NodeLabel) : StandsFor read l.toJson l :=
  Json.standsFor_choice (by cases l <;> rfl)

theorem NodeLevel.standsFor (l : NodeLevel) : StandsFor read l.toJson l :=
  Json.standsFor_choice (by cases l <;> rfl)

theorem Comparison.standsFor (c : Comparison) : StandsFor read c.toJson c :=
  Json.standsFor_choice (by cases c <;> rfl)

/-- An absent value is written as `null`, so no value that is there may be. -/
theorem Json.standsFor_ofOption {read : Reader α} {toJson : α → Json} {o : Option α}
    (each : ∀ a ∈ o, StandsFor read (toJson a) a) (value : ∀ a ∈ o, toJson a ≠ .null) :
    StandsFor (Reader.nullable read) (ofOption toJson o) o := by
  cases o with
  | none => exact standsFor_null read
  | some a => exact (each a rfl).nullable (value a rfl)

theorem NodeLabel.standsFor_ofOption (o : Option NodeLabel) :
    StandsFor (Reader.nullable read) (.ofOption toJson o) o :=
  Json.standsFor_ofOption (fun l _ => l.standsFor) (fun _ _ => Json.noConfusion)

theorem NodeLevel.standsFor_ofOption (o : Option NodeLevel) :
    StandsFor (Reader.nullable read) (.ofOption toJson o) o :=
  Json.standsFor_ofOption (fun l _ => l.standsFor) (fun _ _ => Json.noConfusion)

theorem Json.standsFor_ofOption_string (o : Option String) :
    StandsFor (Reader.nullable Reader.string) (.ofOption .string o) o :=
  standsFor_ofOption (fun s _ => standsFor_string s) (fun _ _ => Json.noConfusion)

structure Node.Writable (n : Node) : Prop where
  id : n.id.Fits
  properties : Properties.Writable n.properties

theorem Node.standsFor {n : Node} (h : n.Writable) : StandsFor read n.toJson n := by
  have id := NodeId.standsFor h.id
  have docId := Json.standsFor_string n.docId
  have content := Json.standsFor_string n.content
  have label := NodeLabel.standsFor n.label
  have level := NodeLevel.standsFor_ofOption n.level
  have properties := Properties.standsFor h.properties
  refine (Record.standsFor fieldNames rfl (by decide) (fun opened => ?_) ?_).1
  · simp only [Option.bind_eq_bind, Option.bind_some, opened.required "id" rfl id,
      opened.required "doc_id" rfl docId, opened.required "content" rfl content,
      opened.required "label" rfl label, opened.optional "level" rfl level,
      opened.required "properties" rfl properties]
    rfl
  · simp [id.plain, docId.plain, content.plain, label.plain, level.plain, properties.plain]

structure Relationship.Writable (r : Relationship) : Prop where
  id : r.id.Fits
  src : r.src.Fits
  dst : r.dst.Fits
  properties : Properties.Writable r.properties

theorem Relationship.standsFor {x : Relationship} (h : x.Writable) : StandsFor read x.toJson x := by
  have id := RelationshipId.standsFor h.id
  have src := NodeId.standsFor h.src
  have dst := NodeId.standsFor h.dst
  have label := Json.standsFor_string x.label
  have properties := Properties.standsFor h.properties
  refine (Record.standsFor fieldNames rfl (by decide) (fun opened => ?_) ?_).1
  · simp only [Option.bind_eq_bind, Option.bind_some, opened.required "id" rfl id,
      opened.required "src" rfl src, opened.required "dst" rfl dst,
      opened.required "label" rfl label, opened.required "properties" rfl properties]
    rfl
  · simp [id.plain, src.plain, dst.plain, label.plain, properties.plain]

def PropertyPredicate.Writable (p : PropertyPredicate) : Prop := p.value.Writable

theorem PropertyPredicate.standsFor {p : PropertyPredicate} (h : p.Writable) :
    StandsFor read p.toJson p := by
  have key := Json.standsFor_string p.key
  have value := Value.standsFor h
  have comparison := Comparison.standsFor p.comparison
  refine (Record.standsFor fieldNames rfl (by decide) (fun opened => ?_) ?_).1
  · simp only [Option.bind_eq_bind, Option.bind_some, opened.required "key" rfl key,
      opened.required "value" rfl value, opened.required "comparison" rfl comparison]
    rfl
  · simp [key.plain, value.plain, comparison.plain]

theorem PropertyPredicate.standsFor_ofOption {o : Option PropertyPredicate}
    (h : ∀ p ∈ o, p.Writable) : StandsFor (Reader.nullable read) (.ofOption toJson o) o :=
  Json.standsFor_ofOption (fun p hp => standsFor (h p hp)) (fun _ _ => Json.noConfusion)

theorem NodeQuery.standsFor_property {p : String × Value} (h : p.2.Writable) :
    StandsFor readProperty (.array [.string p.1, p.2.toJson]) p where
  reads {j room} shuffled deep := by
    obtain ⟨items, rfl, alike⟩ := shuffled.exists_items
    obtain _ | ⟨name, _ | ⟨value, ⟨⟩⟩⟩ := alike
    next k v =>
    rw [name.eq_of_isLeaf rfl] at deep ⊢
    obtain ⟨room, rfl, inner⟩ := Json.exists_room_of_array deep
    simp [readProperty, Reader.string, (Value.standsFor h).reads value (inner v (by simp))]
  plain := by
    refine .array ?_
    simp [(Json.standsFor_string p.1).plain, (Value.standsFor h).plain]

structure NodeQuery.Writable (q : NodeQuery) : Prop where
  ids : ∀ ids ∈ q.ids, ∀ id ∈ ids, NodeId.Fits id
  property : ∀ p ∈ q.property, Value.Writable p.2

theorem NodeQuery.standsFor {q : NodeQuery} (h : q.Writable) : StandsFor read q.toJson q := by
  have ids : StandsFor (Reader.nullable (Reader.list NodeId.read))
      (.ofOption (fun ids => .array (ids.map NodeId.toJson)) q.ids) q.ids :=
    Json.standsFor_ofOption
      (fun ids hids => Json.standsFor_list fun id hid => NodeId.standsFor (h.ids ids hids id hid))
      (fun _ _ => Json.noConfusion)
  have label := NodeLabel.standsFor_ofOption q.label
  have level := NodeLevel.standsFor_ofOption q.level
  have property : StandsFor (Reader.nullable readProperty)
      (.ofOption (fun p => .array [.string p.1, p.2.toJson]) q.property) q.property :=
    Json.standsFor_ofOption (fun p hp => standsFor_property (h.property p hp))
      (fun _ _ => Json.noConfusion)
  refine (Record.standsFor fieldNames rfl (by decide) (fun opened => ?_) ?_).1
  · simp only [Option.bind_eq_bind, Option.bind_some, opened.optional "ids" rfl ids,
      opened.optional "label" rfl label, opened.optional "level" rfl level,
      opened.optional "property" rfl property]
    rfl
  · simp [ids.plain, label.plain, level.plain, property.plain]

def TargetFilter.Writable (f : TargetFilter) : Prop :=
  ∀ p ∈ f.property, PropertyPredicate.Writable p

theorem TargetFilter.standsFor {f : TargetFilter} (h : f.Writable) : StandsFor read f.toJson f := by
  have label := NodeLabel.standsFor_ofOption f.label
  have property := PropertyPredicate.standsFor_ofOption h
  refine (Record.standsFor fieldNames rfl (by decide) (fun opened => ?_) ?_).1
  · simp only [Option.bind_eq_bind, Option.bind_some, opened.optional "label" rfl label,
      opened.optional "property" rfl property]
    rfl
  · simp [label.plain, property.plain]

structure RelationshipQuery.Writable (q : RelationshipQuery) : Prop where
  property : ∀ p ∈ q.property, PropertyPredicate.Writable p
  target : ∀ f ∈ q.target, TargetFilter.Writable f

theorem RelationshipQuery.standsFor {q : RelationshipQuery} (h : q.Writable) :
    StandsFor read q.toJson q := by
  have label := Json.standsFor_ofOption_string q.label
  have property := PropertyPredicate.standsFor_ofOption h.property
  have target : StandsFor (Reader.nullable TargetFilter.read)
      (.ofOption TargetFilter.toJson q.target) q.target :=
    Json.standsFor_ofOption (fun f hf => TargetFilter.standsFor (h.target f hf))
      (fun _ _ => Json.noConfusion)
  refine (Record.standsFor fieldNames rfl (by decide) (fun opened => ?_) ?_).1
  · simp only [Option.bind_eq_bind, Option.bind_some, opened.optional "label" rfl label,
      opened.optional "property" rfl property, opened.optional "target" rfl target]
    rfl
  · simp [label.plain, property.plain, target.plain]

end QuestionSynthesis
