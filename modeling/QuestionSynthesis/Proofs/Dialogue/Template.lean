import Mathlib.Data.List.Perm.Basic
import QuestionSynthesis.Dialogue.Template

/-!
# What a template renders to

The supplied names are checked against the declared ones first, then the declared names against the
supplied ones; what is rendered is laid out in declared order (`Rendering`). Every request has
exactly one rendering (`Rendering.render_eq`, `exists_rendering`), so the order of the supplied pairs
decides only which error is reported, or which of two values for one name counts.
-/

namespace QuestionSynthesis

namespace Template

def Supplies (vars : List (String × String)) (key value : String) : Prop :=
  ∃ before after, vars = before ++ (key, value) :: after ∧ key ∉ before.map Prod.fst

def block (keys values : List String) : String :=
  String.join (List.zipWith (fun key value => key ++ ": " ++ value ++ "\n") keys values)

def layout (t : Template) (values : List String) : String :=
  t.instruction ++ "\n\n" ++ block t.inputs values ++
    (t.outputFormat.map fun f => "\n" ++ f ++ "\n").getD ""

/-- The answer to a request to render a template: the first supplied name that is not declared is
refused, else the first declared name without a value is reported, else the text is laid out. -/
inductive Rendering (t : Template) (vars : List (String × String)) : Except Error String → Prop where
  | unknown {before after key value} (supplied : vars = before ++ (key, value) :: after)
      (known : ∀ p ∈ before, p.1 ∈ t.inputs) (undeclared : key ∉ t.inputs) :
      Rendering t vars (.error (.prompt (t.name ++ ": unknown variable '" ++ key ++ "'")))
  | missing {before after key} (known : ∀ p ∈ vars, p.1 ∈ t.inputs)
      (declared : t.inputs = before ++ key :: after)
      (found : ∀ k ∈ before, k ∈ vars.map Prod.fst) (absent : key ∉ vars.map Prod.fst) :
      Rendering t vars (.error (.prompt (t.name ++ ": missing variable '" ++ key ++ "'")))
  | rendered {values} (known : ∀ p ∈ vars, p.1 ∈ t.inputs)
      (found : List.Forall₂ (Supplies vars) t.inputs values) :
      Rendering t vars (.ok (t.layout values))

variable {t : Template} {vars vars' : List (String × String)} {key value text : String}
  {keys values : List String}

theorem unnamed_iff : key ∉ vars.map Prod.fst ↔ ∀ p ∈ vars, (key != p.1) = true := by
  rw [List.mem_map, not_exists]
  refine forall_congr' fun p => ?_
  rw [not_and, bne_iff_ne, ne_comm]

theorem supplies_iff : Supplies vars key value ↔ vars.lookup key = some value := by
  simp only [Supplies, unnamed_iff, List.lookup_eq_some_iff]

theorem Supplies.mem (h : Supplies vars key value) : (key, value) ∈ vars := by
  obtain ⟨before, after, rfl, -⟩ := h
  simp

theorem lookup_eq_none_iff : vars.lookup key = none ↔ key ∉ vars.map Prod.fst := by
  rw [List.lookup_eq_none_iff, unnamed_iff]

theorem exists_supplies (h : key ∈ vars.map Prod.fst) : ∃ value, Supplies vars key value := by
  cases found : vars.lookup key with
  | none => exact absurd h (lookup_eq_none_iff.mp found)
  | some value => exact ⟨value, supplies_iff.mpr found⟩

theorem supplies_iff_mem (distinct : (vars.map Prod.fst).Nodup) :
    Supplies vars key value ↔ (key, value) ∈ vars := by
  refine ⟨Supplies.mem, fun h => ?_⟩
  obtain ⟨before, after, rfl⟩ := List.append_of_mem h
  refine ⟨before, after, rfl, fun earlier => ?_⟩
  rw [List.map_append, List.map_cons] at distinct
  exact (List.nodup_append.mp distinct).2.2 key earlier key List.mem_cons_self rfl

theorem name_of_found (found : List.Forall₂ (Supplies vars) keys values) (h : key ∈ keys) :
    key ∈ vars.map Prod.fst := by
  induction found with
  | nil => cases h
  | cons first rest ih =>
    rcases List.mem_cons.mp h with rfl | later
    · exact List.mem_map_of_mem first.mem
    · exact ih later

theorem lines_of_found (found : List.Forall₂ (Supplies vars) keys values) :
    t.lines vars keys = .ok (block keys values) := by
  induction found with
  | nil => rfl
  | @cons key value keys values first rest ih =>
    rw [lines, supplies_iff.mp first, ih]
    simp [block, Except.map]

theorem lines_of_absent {before after : List String}
    (found : ∀ k ∈ before, k ∈ vars.map Prod.fst) (absent : key ∉ vars.map Prod.fst) :
    t.lines vars (before ++ key :: after) = .error (t.missingVariable key) := by
  induction before with
  | nil => rw [List.nil_append, lines, lookup_eq_none_iff.mpr absent]
  | cons k before ih =>
    obtain ⟨first, rest⟩ := List.forall_mem_cons.mp found
    obtain ⟨value, supplied⟩ := exists_supplies first
    rw [List.cons_append, lines, supplies_iff.mp supplied, ih rest]
    rfl

theorem found_or_absent (vars : List (String × String)) (keys : List String) :
    (∃ values, List.Forall₂ (Supplies vars) keys values) ∨
      ∃ before key after, keys = before ++ key :: after ∧
        (∀ k ∈ before, k ∈ vars.map Prod.fst) ∧ key ∉ vars.map Prod.fst := by
  induction keys with
  | nil => exact .inl ⟨[], .nil⟩
  | cons k keys ih =>
    by_cases supplied : k ∈ vars.map Prod.fst
    · obtain ⟨value, first⟩ := exists_supplies supplied
      rcases ih with ⟨values, rest⟩ | ⟨before, key, after, rfl, found, absent⟩
      · exact .inl ⟨value :: values, .cons first rest⟩
      · exact .inr ⟨k :: before, key, after, rfl,
          List.forall_mem_cons.mpr ⟨supplied, found⟩, absent⟩
    · exact .inr ⟨[], k, keys, rfl, by simp, supplied⟩

theorem find?_eq_none_iff :
    vars.find? (fun p => !t.inputs.contains p.1) = none ↔ ∀ p ∈ vars, p.1 ∈ t.inputs := by
  simp [List.find?_eq_none]

theorem Rendering.render_eq {answer : Except Error String} (h : Rendering t vars answer) :
    t.render vars = answer := by
  cases h with
  | @unknown before after key value supplied known undeclared =>
    have first : vars.find? (fun p => !t.inputs.contains p.1) = some (key, value) := by
      rw [List.find?_eq_some_iff_append]
      exact ⟨by simpa using undeclared, before, after, supplied, by simpa using known⟩
    simp only [render, first]
    rfl
  | missing known declared found absent =>
    simp only [render, find?_eq_none_iff.mpr known]
    rw [declared, lines_of_absent found absent]
    rfl
  | rendered known found =>
    simp only [render, find?_eq_none_iff.mpr known, lines_of_found found, layout]
    cases t.outputFormat <;> rfl

theorem exists_rendering (t : Template) (vars : List (String × String)) :
    ∃ answer, Rendering t vars answer := by
  cases h : vars.find? (fun p => !t.inputs.contains p.1) with
  | some p =>
    obtain ⟨undeclared, before, after, supplied, known⟩ := List.find?_eq_some_iff_append.mp h
    exact ⟨_, .unknown supplied (by simpa using known) (by simpa using undeclared)⟩
  | none =>
    have known := find?_eq_none_iff.mp h
    rcases found_or_absent vars t.inputs with ⟨values, found⟩ | ⟨_, _, _, declared, found, absent⟩
    · exact ⟨_, .rendered known found⟩
    · exact ⟨_, .missing known declared found absent⟩

theorem render_eq_iff {answer : Except Error String} :
    t.render vars = answer ↔ Rendering t vars answer := by
  refine ⟨fun h => ?_, Rendering.render_eq⟩
  obtain ⟨answer', rendering⟩ := exists_rendering t vars
  rw [← h, rendering.render_eq]
  exact rendering

theorem render_succeeds_iff :
    (∃ text, t.render vars = .ok text) ↔ ∀ key, key ∈ vars.map Prod.fst ↔ key ∈ t.inputs := by
  constructor
  · rintro ⟨text, h⟩ key
    cases render_eq_iff.mp h with
    | rendered known found =>
      refine ⟨fun supplied => ?_, fun declared => ?_⟩
      · obtain ⟨p, hp, rfl⟩ := List.mem_map.mp supplied
        exact known p hp
      · exact name_of_found found declared
  · intro same
    obtain ⟨answer, rendering⟩ := exists_rendering t vars
    cases rendering with
    | @unknown before after key value supplied known undeclared =>
      exact absurd ((same key).mp (by simp [supplied])) undeclared
    | @missing before after key known declared found absent =>
      exact absurd ((same key).mpr (by simp [declared])) absent
    | rendered known found => exact ⟨_, (Rendering.rendered known found).render_eq⟩

theorem Rendering.perm (distinct : (vars.map Prod.fst).Nodup) (order : vars.Perm vars')
    (h : Rendering t vars (.ok text)) : Rendering t vars' (.ok text) := by
  cases h with
  | rendered known found =>
    have distinct' : (vars'.map Prod.fst).Nodup := (order.map Prod.fst).nodup_iff.mp distinct
    refine .rendered (fun p hp => known p (order.mem_iff.mpr hp))
      (found.imp fun key value first => ?_)
    exact (supplies_iff_mem distinct').mpr (order.mem_iff.mp first.mem)

/-- A template renders exactly its declared inputs, and says which name is at fault otherwise. It
succeeds where the same names are supplied and declared, and where none is supplied twice their order
is of no account. -/
theorem renders_declared_inputs (t : Template) (vars : List (String × String)) :
    (∀ answer, t.render vars = answer ↔ Rendering t vars answer) ∧
    ((∃ text, t.render vars = .ok text) ↔ ∀ key, key ∈ vars.map Prod.fst ↔ key ∈ t.inputs) ∧
    ((vars.map Prod.fst).Nodup → ∀ vars', vars.Perm vars' →
      ∀ text, t.render vars = .ok text ↔ t.render vars' = .ok text) := by
  refine ⟨fun _ => render_eq_iff, render_succeeds_iff, fun distinct vars' order text => ?_⟩
  have distinct' : (vars'.map Prod.fst).Nodup := (order.map Prod.fst).nodup_iff.mp distinct
  rw [render_eq_iff, render_eq_iff]
  exact ⟨Rendering.perm distinct order, Rendering.perm distinct' order.symm⟩

theorem renders_declared_inputs_swapped :
    let t : Template := { name := "compare", instruction := "Compare.", inputs := ["left", "right"] }
    let vars := [("right", "\x7b"), ("left", "a\nright: b")]
    (vars.map Prod.fst).Nodup ∧ vars.Perm vars.reverse ∧
      t.render vars = .ok "Compare.\n\nleft: a\nright: b\nright: \x7b\n" ∧
      t.render vars.reverse = .ok "Compare.\n\nleft: a\nright: b\nright: \x7b\n" := by
  intro t vars
  have distinct : (vars.map Prod.fst).Nodup := by decide
  have order : vars.Perm vars.reverse := (List.reverse_perm vars).symm
  obtain ⟨-, -, same⟩ := renders_declared_inputs t vars
  exact ⟨distinct, order, rfl, (same distinct _ order _).mp rfl⟩

end Template

end QuestionSynthesis
