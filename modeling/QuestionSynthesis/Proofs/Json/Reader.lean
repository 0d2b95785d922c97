import Mathlib.Data.List.Basic
import QuestionSynthesis.Json.Reader
import QuestionSynthesis.Proofs.Entries
import QuestionSynthesis.Proofs.Json.Shuffle

/-!
# Documents that stand for a value

A document stands for a value of a reader if it is read as this value wherever its containers may
nest, whatever the order of members, and can be written (`StandsFor`). Lists, maps and records of
such documents stand for lists, maps and records of their values (`standsFor_list`,
`standsFor_entries`, `Record.standsFor`), and a document that stands for a value is read back from
either of its texts (`StandsFor.decode_toCompact`, `StandsFor.decode_toPretty`). In turn a reader
may ensure something of whatever it reads, which passes to lists and to fields (`Reader.Ensures`).
-/

namespace QuestionSynthesis

namespace Json

variable {α β : Type} {read : Reader α} {j : Json} {a : α}

theorem depth_array_le {items : List Json} {room : Nat} :
    (array items).depth ≤ room + 1 ↔ ∀ j ∈ items, j.depth ≤ room := by
  rw [depth, Nat.add_le_add_iff_right, depthItems_le]

theorem depth_object_le {members : List (String × Json)} {room : Nat} :
    (object members).depth ≤ room + 1 ↔ ∀ m ∈ members, m.2.depth ≤ room := by
  rw [depth, Nat.add_le_add_iff_right, depthMembers_le]

theorem exists_room_of_array {items : List Json} {room : Nat} (deep : (array items).depth ≤ room) :
    ∃ inner, room = inner + 1 ∧ ∀ j ∈ items, j.depth ≤ inner := by
  cases room with
  | zero => simp [depth] at deep
  | succ inner => exact ⟨inner, rfl, depth_array_le.mp deep⟩

theorem exists_room_of_object {members : List (String × Json)} {room : Nat}
    (deep : (object members).depth ≤ room) :
    ∃ inner, room = inner + 1 ∧ ∀ m ∈ members, m.2.depth ≤ inner := by
  cases room with
  | zero => simp [depth] at deep
  | succ inner => exact ⟨inner, rfl, depth_object_le.mp deep⟩

theorem readable_of_plain {room : Nat} (plain : Plain j) (deep : j.depth ≤ room) :
    j.readable room = true := by
  induction j using Json.induct generalizing room with
  | array items ih =>
    obtain ⟨room, rfl, inner⟩ := exists_room_of_array deep
    simp only [readable, readableItems_eq, Nat.succ_pos, decide_true, Bool.true_and,
      Nat.add_sub_cancel, List.all_eq_true]
    exact fun j hj => ih j hj (plain.items j hj) (inner j hj)
  | object members ih =>
    obtain ⟨room, rfl, inner⟩ := exists_room_of_object deep
    simp only [readable, readableMembers_eq, Nat.succ_pos, decide_true, Bool.true_and,
      Nat.add_sub_cancel, List.all_eq_true]
    exact fun m hm => ih m hm (plain.members m hm) (inner m hm)
  | unreadable => exact (plain.holds rfl).elim
  | _ => rfl

theorem depth_le_of_readable {room : Nat} (h : j.readable room = true) : j.depth ≤ room := by
  induction j using Json.induct generalizing room with
  | array items ih =>
    simp only [readable, readableItems_eq, Bool.and_eq_true, decide_eq_true_eq,
      List.all_eq_true] at h
    obtain ⟨positive, inner⟩ := h
    obtain ⟨room, rfl⟩ := Nat.exists_eq_succ_of_ne_zero positive.ne'
    exact depth_array_le.mpr fun j hj => ih j hj (inner j hj)
  | object members ih =>
    simp only [readable, readableMembers_eq, Bool.and_eq_true, decide_eq_true_eq,
      List.all_eq_true] at h
    obtain ⟨positive, inner⟩ := h
    obtain ⟨room, rfl⟩ := Nat.exists_eq_succ_of_ne_zero positive.ne'
    exact depth_object_le.mpr fun m hm => ih m hm (inner m hm)
  | _ => exact Nat.zero_le room

/-- The document is read as the value where its containers may nest, whatever the order of members
in it, and can be written. -/
structure StandsFor (read : Reader α) (j : Json) (a : α) : Prop where
  reads : ∀ {j' room}, Shuffled j j' → j'.depth ≤ room → read room j' = some a
  plain : Plain j

theorem ranged_of_le_wordMax {n : Nat} (h : n ≤ wordMax) : Numeral.Ranged n :=
  ⟨by omega, Int.ofNat_le.mpr h⟩

theorem standsFor_leaf (leaf : j.isLeaf = true) (plain : LeafPlain j)
    (reads : ∀ room, read room j = some a) : StandsFor read j a where
  reads shuffled _ := shuffled.eq_of_isLeaf leaf ▸ reads _
  plain := .leaf leaf plain

theorem standsFor_word {n : Nat} (h : n ≤ wordMax) : StandsFor Reader.word (.int n) n :=
  standsFor_leaf rfl (ranged_of_le_wordMax h) fun _ => by simp [Reader.word, h]

theorem standsFor_string (s : String) : StandsFor Reader.string (.string s) s :=
  standsFor_leaf rfl trivial fun _ => rfl

theorem standsFor_choice {ofName? : String → Option α} {name : String}
    (h : ofName? name = some a) : StandsFor (Reader.choice ofName?) (.string name) a :=
  standsFor_leaf rfl trivial fun room => by cases room <;> exact h

theorem standsFor_null (read : Reader α) : StandsFor (Reader.nullable read) .null none :=
  standsFor_leaf rfl trivial fun _ => rfl

theorem StandsFor.map (h : StandsFor read j a) (f : α → β) :
    StandsFor (fun room j => (read room j).map f) j (f a) where
  reads shuffled deep := by simp only [h.reads shuffled deep, Option.map_some]
  plain := h.plain

theorem StandsFor.nullable (h : StandsFor read j a) (value : j ≠ .null) :
    StandsFor (Reader.nullable read) j (some a) where
  reads shuffled deep := by
    unfold Reader.nullable
    split
    · cases shuffled
      exact absurd rfl value
    · rw [h.reads shuffled deep, Option.map_some]
  plain := h.plain

theorem mapM_of_forall₂ {R : α → β → Prop} {f : β → Option α} {as : List α} {bs : List β}
    (h : List.Forall₂ R as bs) (each : ∀ a ∈ as, ∀ b ∈ bs, R a b → f b = some a) :
    bs.mapM f = some as := by
  induction h with
  | nil => rfl
  | @cons a b as bs first rest ih =>
    rw [List.mapM_cons, each a List.mem_cons_self b List.mem_cons_self first,
      ih fun a ha b hb => each a (List.mem_cons_of_mem _ ha) b (List.mem_cons_of_mem _ hb)]
    rfl

theorem map_of_forall₂ {R : α → β → Prop} {f : β → α} {as : List α} {bs : List β}
    (h : List.Forall₂ R as bs) (each : ∀ a ∈ as, ∀ b ∈ bs, R a b → f b = a) : bs.map f = as := by
  have mapped := mapM_of_forall₂ (f := fun b => some (f b)) h fun a ha b hb related =>
    congrArg some (each a ha b hb related)
  exact Option.some.inj (List.mapM_pure.symm.trans mapped)

variable {toJson : α → Json}

theorem standsFor_list {as : List α} (each : ∀ a ∈ as, StandsFor read (toJson a) a) :
    StandsFor (Reader.list read) (.array (as.map toJson)) as where
  reads {j' room} shuffled deep := by
    obtain ⟨items, rfl, alike⟩ := shuffled.exists_items
    obtain ⟨room, rfl, inner⟩ := exists_room_of_array deep
    exact mapM_of_forall₂ (List.forall₂_map_left_iff.mp alike) fun a ha j hj related =>
      (each a ha).reads related (inner j hj)
  plain := .array (List.forall_mem_map.mpr fun a ha => (each a ha).plain)

theorem standsFor_entries {m : Entries α} (sorted : m.Sorted)
    (each : ∀ e ∈ m, StandsFor read (toJson e.2) e.2) :
    StandsFor (Reader.entries read) (.object (m.map fun e => (e.1, toJson e.2))) m where
  reads {j' room} shuffled deep := by
    obtain ⟨ordered, members, rfl, order, alike⟩ := shuffled.exists_entries
    obtain ⟨room, rfl, inner⟩ := exists_room_of_object deep
    have entries : members.mapM (fun e => (read room e.2).map (e.1, ·)) = some ordered := by
      refine mapM_of_forall₂ alike fun e he e' he' related => ?_
      rw [(each e (order.mem_iff.mp he)).reads related.2 (inner e' he'), Option.map_some,
        ← related.1]
    rw [Reader.entries, entries, Option.map_some, sorted.ofPairs_perm order]
  plain := .object (List.forall_mem_map.mpr fun e he => (each e he).plain)

namespace Record

variable {members : List (String × Json)} {names : List String} {r : Record}

/-- The members of an object are found among the fields of the record, as they are or shuffled, with
room for what they hold. -/
structure Opened (members : List (String × Json)) (r : Record) : Prop where
  found : ∀ {name j}, members.lookup name = some j →
    ∃ j', r.fields.lookup name = some j' ∧ Shuffled j j' ∧ j'.depth ≤ r.room

theorem ofMembers_eq (known : ∀ m ∈ members, m.1 ∈ names)
    (distinct : (members.map Prod.fst).Nodup) : ofMembers names members = some members := by
  have all : members.filter (fun m => names.contains m.1) = members :=
    List.filter_eq_self.mpr fun m hm => List.contains_iff_mem.mpr (known m hm)
  rw [ofMembers, all, if_pos distinct]

theorem lookup_of_mem {name : String} (distinct : (members.map Prod.fst).Nodup)
    (h : (name, j) ∈ members) : members.lookup name = some j := by
  induction members with
  | nil => cases h
  | cons m members ih =>
    obtain ⟨fresh, distinct⟩ := List.nodup_cons.mp distinct
    rcases List.mem_cons.mp h with rfl | later
    · simp
    · have other : (name == m.1) = false := by
        refine beq_eq_false_iff_ne.mpr ?_
        rintro rfl
        exact fresh (List.mem_map.mpr ⟨_, later, rfl⟩)
      rw [List.lookup_cons, other]
      exact ih distinct later

theorem exists_opened (names : List String) {room : Nat} (shuffled : Shuffled (.object members) j)
    (deep : j.depth ≤ room) (named : members.map Prod.fst = names) (distinct : names.Nodup) :
    ∃ r, Opened members r ∧ Record.read names room j = some r ∧
      Record.readPartial names room j = some r := by
  obtain ⟨ordered, members', rfl, order, sameNames, alike⟩ := shuffled.exists_members
  obtain ⟨room, rfl, inner⟩ := exists_room_of_object deep
  have perm : (members'.map Prod.fst).Perm names := sameNames ▸ named ▸ order.map Prod.fst
  have distinct' : (members'.map Prod.fst).Nodup := perm.nodup_iff.mpr distinct
  have opened : ofMembers names members' = some members' :=
    ofMembers_eq (fun m hm => perm.mem_iff.mp (List.mem_map_of_mem hm)) distinct'
  refine ⟨⟨room, members'⟩, ⟨fun {name j} found => ?_⟩, ?_⟩
  · -- names are distinct, so a name finds its member wherever the order has put it
    have mem : (name, j) ∈ ordered := by
      obtain ⟨before, after, rfl, -⟩ := List.lookup_eq_some_iff.mp found
      exact order.mem_iff.mpr (by simp)
    obtain ⟨⟨_, j'⟩, mem', rfl, related⟩ := exists_right_of_mem alike mem
    exact ⟨j', lookup_of_mem distinct' mem', related, inner _ mem'⟩
  · simp [Record.read, Record.readPartial, opened]

theorem standsFor {make : Record → Option α} (names : List String)
    (named : members.map Prod.fst = names) (distinct : names.Nodup)
    (reads : ∀ {r : Record}, Opened members r → make r = some a)
    (plain : ∀ m ∈ members, Plain m.2) :
    StandsFor (fun room j => (Record.read names room j).bind make) (.object members) a ∧
      StandsFor (fun room j => (Record.readPartial names room j).bind make) (.object members) a := by
  refine ⟨⟨fun shuffled deep => ?_, .object plain⟩, ⟨fun shuffled deep => ?_, .object plain⟩⟩
  · obtain ⟨r, opened, read, -⟩ := exists_opened names shuffled deep named distinct
    simp only [read, Option.bind_some, reads opened]
  · obtain ⟨r, opened, -, read⟩ := exists_opened names shuffled deep named distinct
    simp only [read, Option.bind_some, reads opened]

theorem Opened.required (h : Opened members r) (name : String)
    (found : members.lookup name = some j) (stands : StandsFor read j a) :
    r.required name read = some a := by
  obtain ⟨j', found, shuffled, deep⟩ := h.found found
  rw [Record.required, found, Option.bind_some, stands.reads shuffled deep]

theorem Opened.optional {o : Option α} (h : Opened members r) (name : String)
    (found : members.lookup name = some j) (stands : StandsFor (Reader.nullable read) j o) :
    r.optional name read = some o := by
  obtain ⟨j', found, shuffled, deep⟩ := h.found found
  rw [Record.optional, found]
  exact stands.reads shuffled deep

theorem Opened.orDefault (h : Opened members r) (name : String)
    (found : members.lookup name = some j) (stands : StandsFor read j a) (d : α) :
    r.orDefault name d read = some a := by
  obtain ⟨j', found, shuffled, deep⟩ := h.found found
  rw [Record.orDefault, found]
  exact stands.reads shuffled deep

end Record

theorem decode_toCompact (plain : Plain j) (exact : Exact j) :
    decode read j.toCompact = read nestingLimit j := by
  rw [decode, parse?_toCompact plain exact, Option.bind_some]

theorem decode_toPretty (plain : Plain j) (exact : Exact j) :
    decode read j.toPretty = read nestingLimit j := by
  rw [decode, parse?_toPretty plain exact, Option.bind_some]

namespace StandsFor

variable {j' : Json}

theorem decode_toCompact (h : StandsFor read j a) (shuffled : Shuffled j j')
    (deep : j'.depth ≤ nestingLimit) (exact : Exact j') : decode read j'.toCompact = some a := by
  rw [Json.decode_toCompact (h.plain.shuffled shuffled) exact, h.reads shuffled deep]

theorem decode_toPretty (h : StandsFor read j a) (shuffled : Shuffled j j')
    (deep : j'.depth ≤ nestingLimit) (exact : Exact j') : decode read j'.toPretty = some a := by
  rw [Json.decode_toPretty (h.plain.shuffled shuffled) exact, h.reads shuffled deep]

end StandsFor

def Reader.Ensures (read : Reader α) (p : α → Prop) : Prop :=
  ∀ room j a, read room j = some a → p a

theorem Reader.word_ensures : Ensures word (· ≤ wordMax) := by
  intro room j n h
  unfold word at h
  split at h
  · obtain ⟨range, value⟩ := Option.ite_none_right_eq_some.mp h
    cases value
    exact Int.toNat_le.mpr range.2
  · cases h

theorem Reader.Ensures.map {p : β → Prop} {f : α → β} (h : Ensures read fun a => p (f a)) :
    Ensures (fun room j => (read room j).map f) p := by
  intro room j b hb
  obtain ⟨a, ha, rfl⟩ := Option.map_eq_some_iff.mp hb
  exact h room j a ha

theorem forall_mem_of_mapM {p : β → Prop} {f : α → Option β} {as : List α} {bs : List β}
    (each : ∀ a b, f a = some b → p b) (h : as.mapM f = some bs) : ∀ b ∈ bs, p b := by
  induction as generalizing bs with
  | nil =>
    cases h
    simp
  | cons a as ih =>
    rw [List.mapM_cons] at h
    obtain ⟨b, first, h⟩ := Option.bind_eq_some_iff.mp h
    obtain ⟨rest, later, h⟩ := Option.bind_eq_some_iff.mp h
    cases h
    exact List.forall_mem_cons.mpr ⟨each a b first, ih later⟩

theorem Reader.Ensures.list {p : α → Prop} (h : Ensures read p) :
    Ensures (list read) fun as => ∀ a ∈ as, p a := by
  intro room j as has
  unfold Reader.list at has
  split at has
  · cases has
  · exact forall_mem_of_mapM (h _) has
  · cases has

theorem Reader.Ensures.required {p : α → Prop} (h : Ensures read p) {r : Record} {name : String}
    (field : r.required name read = some a) : p a := by
  obtain ⟨j, -, hj⟩ := Option.bind_eq_some_iff.mp field
  exact h _ _ _ hj

end Json

end QuestionSynthesis
