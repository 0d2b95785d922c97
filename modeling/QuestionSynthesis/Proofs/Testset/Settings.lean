import QuestionSynthesis.Proofs.Json.Fields
import QuestionSynthesis.Proofs.Json.Literals
import QuestionSynthesis.Proofs.RoundTrip
import QuestionSynthesis.Proofs.Testset.Distribution

/-!
# Partial documents of settings

An excerpt of settings gives some of their fields: in any order, among members of other names, and
with a group of fields left out or empty where nothing of it is given (`Settings.Excerpt`). It is
read as these fields and the defaults elsewhere (`Excerpt.read`), and what is read is checked as a
whole. Numbers come back as they were written if their literals read exactly, as short ones do.
Those of many digits need not (`long_literal_drifts`).
-/

namespace QuestionSynthesis

open Json (Exact HasField HasGroup LeafExact Numeral Plain Reader Record nestingLimit)

/-- The document is a number that is read as the double: its literal, or a whole number that has it
as its nearest double. -/
inductive Binary64.Denoted (x : Binary64) : Json → Prop where
  | double : Denoted x (.double x)
  | whole {n} (nearest : .ofInt n = x) : Denoted x (.int n)

theorem Binary64.Denoted.read {x : Binary64} {j : Json} (h : x.Denoted j) (room : Nat) :
    Reader.double room j = some x := by
  cases h with
  | double => rfl
  | whole nearest => exact congrArg some nearest

namespace Evolution.Settings

inductive Field where
  | maxTries
  | maxResamples
  | style
  | length
  deriving DecidableEq

def only (s : Settings) (given : Field → Bool) : Settings where
  maxTries := if given .maxTries then s.maxTries else 5
  maxResamples := if given .maxResamples then s.maxResamples else some 50
  style := if given .style then s.style else .perfectGrammar
  length := if given .length then s.length else .medium

/-- An object that gives just these fields of the settings. A budget without a bound is `null`. -/
structure Excerpt (s : Settings) (given : Field → Bool) (members : List (String × Json)) :
    Prop where
  maxTries : HasField members "max_tries" (· = .int s.maxTries) (given .maxTries)
  maxResamples : HasField members "max_resamples"
    (· = .ofOption (fun n : Nat => .int n) s.maxResamples) (given .maxResamples)
  style : HasField members "style" (· = .string s.style.name) (given .style)
  length : HasField members "length" (· = .string s.length.describe) (given .length)

variable {s : Settings} {given : Field → Bool} {members : List (String × Json)}

theorem only_none (h : ∀ f, given f = false) : s.only given = {} := by
  simp only [only, h]
  rfl

theorem Excerpt.single (h : s.Excerpt given members) :
    ∀ name ∈ fieldNames, (Json.valuesOf members name).length ≤ 1 := by
  simp only [fieldNames, List.forall_mem_cons]
  exact ⟨h.maxTries.length_le, h.maxResamples.length_le, h.style.length_le, h.length.length_le,
    by simp⟩

theorem Excerpt.read (h : s.Excerpt given members) (fits : s.Writable) (room : Nat) :
    Settings.read (room + 1) (.object members) = some (s.only given) := by
  have leaf : (Json.ofOption (fun n : Nat => .int n) s.maxResamples).depth = 0 := by
    cases s.maxResamples <;> rfl
  have maxTries := h.maxTries.orDefault_leaf room fieldNames (by decide)
    (Json.standsFor_word fits.maxTries) rfl
  have maxResamples := h.maxResamples.orDefault_leaf room fieldNames (by decide)
    (standsFor_maxResamples fits) leaf
  have style := h.style.orDefault_leaf room fieldNames (by decide) s.style.standsFor rfl
  have length := h.length.orDefault_leaf room fieldNames (by decide) s.length.standsFor rfl
  simp only [Settings.read, Record.readPartial_object h.single, Option.bind_eq_bind,
    Option.bind_some, maxTries, maxResamples, style, length]
  rfl

end Evolution.Settings

namespace Distribution

inductive Field where
  | simple
  | multiContext
  deriving DecidableEq

def only (d : Distribution) (given : Field → Bool) : Distribution where
  simple := if given .simple then d.simple else ⟨0x3fe0000000000000⟩
  multiContext := if given .multiContext then d.multiContext else ⟨0x3fe0000000000000⟩

structure Excerpt (d : Distribution) (given : Field → Bool) (members : List (String × Json)) :
    Prop where
  simple : HasField members "simple" d.simple.Denoted (given .simple)
  multiContext : HasField members "multi_context" d.multiContext.Denoted (given .multiContext)

variable {d : Distribution} {given : Field → Bool} {members : List (String × Json)}

theorem only_none (h : ∀ f, given f = false) : d.only given = {} := by
  simp only [only, h]
  rfl

theorem Excerpt.single (h : d.Excerpt given members) :
    ∀ name ∈ fieldNames, (Json.valuesOf members name).length ≤ 1 := by
  simp only [fieldNames, List.forall_mem_cons]
  exact ⟨h.simple.length_le, h.multiContext.length_le, by simp⟩

theorem Excerpt.read (h : d.Excerpt given members) (room : Nat) :
    Distribution.read (room + 1) (.object members) = some (d.only given) := by
  have simple := h.simple.orDefault room fieldNames (by decide) fun _ denoted => denoted.read room
  have multiContext :=
    h.multiContext.orDefault room fieldNames (by decide) fun _ denoted => denoted.read room
  simp only [Distribution.read, Record.readPartial_object h.single, Option.bind_eq_bind,
    Option.bind_some, simple, multiContext]
  rfl

end Distribution

namespace Testset.Settings

inductive Field where
  | threshold
  | evolution (field : Evolution.Settings.Field)
  | distribution (field : Distribution.Field)
  | concurrency
  deriving DecidableEq

def only (s : Settings) (given : Field → Bool) : Settings where
  threshold := if given .threshold then s.threshold else ⟨0x401e000000000000⟩
  evolution := s.evolution.only fun f => given (.evolution f)
  distribution := s.distribution.only fun f => given (.distribution f)
  concurrency := if given .concurrency then s.concurrency else 4

inductive Excerpt (s : Settings) (given : Field → Bool) : Json → Prop where
  | object {members}
      (threshold : HasField members "threshold" s.threshold.Denoted (given .threshold))
      (evolution : HasGroup members "evolution" s.evolution.Excerpt fun f => given (.evolution f))
      (distribution : HasGroup members "distribution" s.distribution.Excerpt fun f =>
        given (.distribution f))
      (concurrency : HasField members "concurrency" (· = .int s.concurrency) (given .concurrency)) :
      Excerpt s given (.object members)

structure Writable (s : Settings) : Prop where
  evolution : s.evolution.Writable
  concurrency : s.concurrency ≤ wordMax

variable {s : Settings} {given : Field → Bool} {j : Json} {text : String}

theorem only_all (s : Settings) : s.only (fun _ => true) = s := rfl

theorem Excerpt.read (h : s.Excerpt given j) (fits : s.Writable) (room : Nat) :
    Settings.read (room + 2) j = some (s.only given) := by
  cases h with
  | @object members threshold evolution distribution concurrency =>
    have single : ∀ name ∈ fieldNames, (Json.valuesOf members name).length ≤ 1 := by
      simp only [fieldNames, List.forall_mem_cons]
      exact ⟨threshold.length_le, evolution.length_le, distribution.length_le,
        concurrency.length_le, by simp⟩
    have threshold := threshold.orDefault (room + 1) fieldNames (by decide)
      fun _ denoted => denoted.read (room + 1)
    have evolution := evolution.orDefault (room + 1) fieldNames (by decide)
      Evolution.Settings.only_none fun _ part => part.read fits.evolution room
    have distribution := distribution.orDefault (room + 1) fieldNames (by decide)
      Distribution.only_none fun _ part => part.read room
    have concurrency := concurrency.orDefault_leaf (room + 1) fieldNames (by decide)
      (Json.standsFor_word fits.concurrency) rfl
    simp only [Settings.read, Record.readPartial_object single, Option.bind_eq_bind,
      Option.bind_some, threshold, evolution, distribution, concurrency]
    rfl

theorem Excerpt.read_nestingLimit (h : s.Excerpt given j) (fits : s.Writable) :
    Settings.read nestingLimit j = some (s.only given) :=
  h.read fits 125

theorem validate_config {e : Error} (h : s.validate = .error e) : ∃ why, e = .config why := by
  simp only [validate, Distribution.validate] at h
  split_ifs at h <;> (cases h; exact ⟨_, rfl⟩)

theorem ofText_of_read (parsed : Json.parse? text.toList = some j)
    (h : Settings.read nestingLimit j = some s) :
    ofText text = s.validate.bind fun _ => .ok s := by
  simp only [ofText, Json.decode, parsed, Option.bind_some, h]
  rfl

theorem valid_of_ofText (h : ofText text = .ok s) : s.validate = .ok () := by
  simp only [ofText] at h
  split at h
  · next s' read =>
    cases valid : s'.validate with
    | error e => rw [valid] at h; cases h
    | ok u => rw [valid] at h; cases h; exact valid
  · cases h

theorem new_of_valid (h : s.validate = .ok ()) : Generator.new s = .ok ⟨s, h⟩ := by
  unfold Generator.new
  split
  · rfl
  · next e h' => cases h.symm.trans h'

theorem finite_of_valid (h : s.validate = .ok ()) : s.threshold.isFinite = true ∧
    s.distribution.simple.isFinite = true ∧ s.distribution.multiContext.isFinite = true := by
  have weights := Distribution.valid_of_validate (distribution_valid h)
  refine ⟨?_, (Distribution.isWeight_iff.mp weights.simple).1,
    (Distribution.isWeight_iff.mp weights.multi).1⟩
  by_contra infinite
  rw [validate, if_pos (by simpa using infinite)] at h
  cases h

theorem excerpt_toJson (valid : s.validate = .ok ()) : s.Excerpt (fun _ => true) s.toJson := by
  obtain ⟨threshold, simple, multi⟩ := finite_of_valid valid
  have number : ∀ {x : Binary64}, x.isFinite = true → x.Denoted (.ofDouble x) := by
    intro x finite
    rw [Json.ofDouble, if_pos finite]
    exact .double
  refine .object (.given rfl (number threshold)) ⟨true, by simp, .given rfl ⟨_, rfl, ?_⟩⟩
    ⟨true, by simp, .given rfl ⟨_, rfl, ?_⟩⟩ (.given rfl rfl)
  · exact ⟨.given rfl rfl, .given rfl rfl, .given rfl rfl, .given rfl rfl⟩
  · exact ⟨.given rfl (number simple), .given rfl (number multi)⟩

theorem plain_toJson (fits : s.Writable) : Plain s.toJson := by
  have number : ∀ x : Binary64, Plain (.ofDouble x) := by
    intro x
    rw [Json.ofDouble]
    split <;> exact .leaf rfl trivial
  have weights : Plain s.distribution.toJson := by
    refine .object ?_
    simp only [List.forall_mem_cons]
    exact ⟨number _, number _, by simp⟩
  refine .object ?_
  simp only [List.forall_mem_cons]
  exact ⟨number _, (Evolution.Settings.standsFor fits.evolution).plain, weights,
    (Json.standsFor_word fits.concurrency).plain, by simp⟩

/-- A text that is read as an excerpt of settings gives its fields and the defaults elsewhere, or
the fault of these settings. A printed document is read as what was printed, as far as its numbers
have literals that read exactly, as short ones do. So settings that come from a text are fit for a
generator, and a complete document gives the settings themselves. -/
theorem partial_documents_read :
    (∀ (c : Settings) (given : Field → Bool) (j : Json) (text : String), c.Writable →
      c.Excerpt given j → Json.parse? text.toList = some j →
        ((c.only given).validate = .ok () → ofText text = .ok (c.only given)) ∧
        ∀ e, (c.only given).validate = .error e → ofText text = .error e ∧ ∃ why, e = .config why) ∧
    (∀ j, Plain j → Exact j → ∀ text ∈ [j.toCompact, j.toPretty],
      Json.parse? text.toList = some j) ∧
    (∀ x : Binary64, x.isFinite = true → ∃ n, Numeral.parse? (x.text .marked).toList = some n ∧
      n.denoted = x ∧ (n.Brief → LeafExact (.double x))) ∧
    (∀ text s, ofText text = .ok s → ∃ g, Generator.new s = .ok g ∧ g.settings = s) ∧
    ∀ c : Settings, c.Writable → c.validate = .ok () → Exact c.toJson →
      ∀ text ∈ [c.toJson.toCompact, c.toJson.toPretty], ofText text = .ok c := by
  have printed : ∀ j, Plain j → Exact j → ∀ text ∈ [j.toCompact, j.toPretty],
      Json.parse? text.toList = some j := by
    intro j plain exact
    simp only [List.forall_mem_cons]
    exact ⟨Json.parse?_toCompact plain exact, Json.parse?_toPretty plain exact, by simp⟩
  refine ⟨fun c given j text fits part parsed => ?_, printed, fun x finite => ?_,
    fun text s h => ?_, fun c fits valid exact text ht => ?_⟩
  · rw [ofText_of_read parsed (part.read_nestingLimit fits)]
    refine ⟨fun valid => by rw [valid]; rfl, fun e fault => ?_⟩
    rw [fault]
    exact ⟨rfl, validate_config fault⟩
  · obtain ⟨n, parsed, -, denoted⟩ := Numeral.exists_literal finite
    exact ⟨n, parsed, denoted, Numeral.leafExact_of_brief finite parsed⟩
  · exact ⟨_, new_of_valid (valid_of_ofText h), rfl⟩
  · have parsed := printed c.toJson (plain_toJson fits) exact text ht
    rw [ofText_of_read parsed ((excerpt_toJson valid).read_nestingLimit fits), only_all, valid]
    rfl

def overrides : Json := .object
  [("note", .array [.null]), ("evolution", .object [("max_resamples", .null), ("seed", .int 7)]),
    ("threshold", .int 6)]

def overridden : Settings := { threshold := .ofInt 6, evolution := { maxResamples := none } }

theorem partial_documents_read_overrides :
    ofText overrides.toCompact = .ok overridden ∧
    ofText (Json.object [("concurrency", .int 0)]).toPretty =
      .error (.config "concurrency must be at least 1") := by
  obtain ⟨reads, printed, -⟩ := partial_documents_read
  have number : ∀ n : Nat, n ≤ wordMax → Plain (.int n) := fun _ h => (Json.standsFor_word h).plain
  constructor
  · let given : Field → Bool := fun f => f = .threshold ∨ f = .evolution .maxResamples
    have budget : overridden.evolution.Excerpt (fun f => given (.evolution f))
        [("max_resamples", .null), ("seed", .int 7)] :=
      ⟨.absent rfl, .given rfl rfl, .absent rfl, .absent rfl⟩
    have part : overridden.Excerpt given overrides :=
      .object (.given rfl (.whole rfl)) ⟨true, by simp, .given rfl ⟨_, rfl, budget⟩⟩
        ⟨false, fun f _ => by simp [given], .absent rfl⟩ (.absent rfl)
    have plain : Plain overrides := by
      refine .object ?_
      simp only [List.forall_mem_cons]
      refine ⟨.array ?_, .object ?_, number 6 (by decide), by simp⟩
      · exact List.forall_mem_singleton.mpr (.leaf rfl trivial)
      · simp only [List.forall_mem_cons]
        exact ⟨.leaf rfl trivial, number 7 (by decide), by simp⟩
    have exact : Exact overrides := by
      refine .object ?_
      simp only [List.forall_mem_cons]
      refine ⟨.array ?_, .object ?_, .leaf rfl trivial, by simp⟩
      · exact List.forall_mem_singleton.mpr (.leaf rfl trivial)
      · simp only [List.forall_mem_cons]
        exact ⟨.leaf rfl trivial, .leaf rfl trivial, by simp⟩
    have fits : overridden.Writable := ⟨⟨by decide, by simp [overridden]⟩, by decide⟩
    have parsed := printed overrides plain exact overrides.toCompact (by simp)
    exact (reads overridden given overrides _ fits part parsed).1 (by decide +kernel)
  · let idle : Settings := { concurrency := 0 }
    let given : Field → Bool := fun f => f = .concurrency
    have part : idle.Excerpt given (.object [("concurrency", .int 0)]) :=
      .object (.absent rfl) ⟨false, by simp [given], .absent rfl⟩
        ⟨false, by simp [given], .absent rfl⟩ (.given rfl rfl)
    have plain : Plain (.object [("concurrency", .int 0)]) :=
      .object (List.forall_mem_singleton.mpr (number 0 (by decide)))
    have exact : Exact (.object [("concurrency", .int 0)]) :=
      .object (List.forall_mem_singleton.mpr (.leaf rfl trivial))
    have fits : idle.Writable := ⟨⟨by decide, by decide⟩, by decide⟩
    have parsed := printed _ plain exact (Json.object [("concurrency", .int 0)]).toPretty (by simp)
    exact ((reads idle given _ _ fits part parsed).2 _ (by decide +kernel)).1

def finelyTuned : Settings := { threshold := ⟨0x40499fc44f1b2f60⟩ }

/-- The fewest digits that denote a double need not be read as it: they are rounded before they are
divided by a power of ten, which here leads to the next double. -/
theorem long_literal_drifts : finelyTuned.Writable ∧ finelyTuned.validate = .ok () ∧
    finelyTuned.threshold.text .marked = "51.248178375505404" ∧
    ofText "\x7b\"threshold\": 51.248178375505404\x7d" =
      .ok { finelyTuned with threshold := ⟨0x40499fc44f1b2f61⟩ } ∧
    ofText finelyTuned.toJson.toCompact ≠ .ok finelyTuned := by
  refine ⟨⟨⟨by decide, by decide⟩, by decide⟩, ?_⟩
  decide +kernel

end Testset.Settings

end QuestionSynthesis
