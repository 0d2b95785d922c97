import QuestionSynthesis.Proofs.Json.Numeral
import QuestionSynthesis.Proofs.Json.Scanner
import QuestionSynthesis.Proofs.Json.Tree

/-!
# Documents as they are written

What is written of a document is read as that document, on one line or many (`parse?_toCompact`,
`parse?_toPretty`), if its leaves can be written at all (`Plain`) and the literals of its doubles
read as these doubles (`Exact`). A text spells a value if a scanner that awaits a value has read this
one when the text is over (`Spells`), in whatever container, so the texts of containers are put
together from those of their items.
-/

namespace QuestionSynthesis

namespace Json

namespace Scanner

variable {s s' : Scanner} {c : Char} {stack : List Frame} {t u : List Char} {j : Json} {k : String}
  {items : List Json} {members : List (String × Json)}

theorem run_append (s : Scanner) (t u : List Char) : s.run (t ++ u) = (s.run t).bind (run · u) := by
  induction t generalizing s with
  | nil => rfl
  | cons c t ih =>
    rw [List.cons_append, run, run, Option.bind_assoc]
    exact congrArg _ (funext fun s => ih s)

theorem run_cons (step : s.step c = some s') : s.run (c :: t) = s'.run t := by
  rw [run, step, Option.bind_some]

theorem run_then (first : s.run t = some s') : s.run (t ++ u) = s'.run u := by
  rw [run_append, first, Option.bind_some]

/-- A value has been read: it is in its place, or its literal might still go on. -/
inductive Holds (stack : List Frame) (j : Json) : Scanner → Prop where
  | given : Holds stack j (give stack j)
  | literal {read : List Char} (reads : Numeral.read? read.reverse = some j) :
      Holds stack j ⟨stack, .numeral read⟩

theorem give_step (stack : List Frame) (j : Json) (c : Char) :
    (give stack j).step c = (give stack j).punctuate c := by
  unfold give
  split <;> rfl

theorem Holds.step (h : Holds stack j s) (ends : isNumeral c = false) :
    s.step c = (give stack j).punctuate c := by
  cases h with
  | given => exact give_step stack j c
  | literal reads => simp [Scanner.step, ends, reads]

theorem Holds.result? (h : Holds [] j s) : s.result? = some j := by
  cases h with
  | given => rfl
  | literal reads => exact reads

theorem Holds.stand_ne (h : Holds stack j s) : s.stand ≠ .value := by
  cases h with
  | given =>
    unfold give
    split <;> simp
  | literal reads => simp

theorem isNumeral_of_isSpace (h : isSpace c = true) : isNumeral c = false := by
  simp only [isSpace, Bool.or_eq_true, beq_iff_eq] at h
  rcases h with ((rfl | rfl) | rfl) | rfl <;> rfl

theorem Holds.blanks (h : Holds stack j s) (blank : ∀ c ∈ t, isSpace c = true) :
    ∃ s', s.run t = some s' ∧ Holds stack j s' := by
  induction t generalizing s with
  | nil => exact ⟨s, rfl, h⟩
  | cons c t ih =>
    obtain ⟨first, rest⟩ := List.forall_mem_cons.mp blank
    have step : s.step c = some (give stack j) := by
      rw [h.step (isNumeral_of_isSpace first), punctuate, if_pos first]
    rw [run_cons step]
    exact ih .given rest

/-- A scanner that awaits a value has read this one when the text is over. -/
def Spells (t : List Char) (j : Json) : Prop :=
  ∀ stack, ∃ s, run ⟨stack, .value⟩ t = some s ∧ Holds stack j s

theorem Spells.blank (h : Spells t j) (blank : isSpace c = true) : Spells (c :: t) j := by
  intro stack
  have step : Scanner.step ⟨stack, .value⟩ c = some ⟨stack, .value⟩ := by
    simp [Scanner.step, punctuate, blank]
  rw [run_cons step]
  exact h stack

theorem Spells.blanks (h : Spells t j) (blank : ∀ c ∈ u, isSpace c = true) : Spells (u ++ t) j := by
  induction u with
  | nil => exact h
  | cons c u ih =>
    obtain ⟨first, rest⟩ := List.forall_mem_cons.mp blank
    exact (ih rest).blank first

/-- A value that is read where one must come is read where the array might also end. -/
theorem run_valueOrClose (h : run ⟨stack, .value⟩ t = some s) (done : s.stand ≠ .value) :
    run ⟨stack, .valueOrClose⟩ t = some s := by
  induction t with
  | nil =>
    cases h
    exact absurd rfl done
  | cons c t ih =>
    obtain ⟨next, step, rest⟩ := Option.bind_eq_some_iff.mp h
    by_cases space : isSpace c = true
    · have stays : ∀ stand, stand = .value ∨ stand = .valueOrClose →
          Scanner.step ⟨stack, stand⟩ c = some ⟨stack, stand⟩ := by
        rintro _ (rfl | rfl) <;> simp [Scanner.step, punctuate, space]
      rw [stays _ (.inl rfl)] at step
      cases step
      rw [run_cons (stays _ (.inr rfl))]
      exact ih rest
    · -- a closing bracket opens no value, so the character does the same in both stands
      have opens : openValue stack c = some next := by
        simpa [Scanner.step, punctuate, space] using step
      have bracket : c ≠ ']' := by
        rintro rfl
        cases opens
      have step' : Scanner.step ⟨stack, .valueOrClose⟩ c = some next := by
        simpa [Scanner.step, punctuate, space, bracket] using opens
      rw [run_cons step']
      exact rest

/-- The text takes an array with a value just read to its end, with these items to follow. -/
def SpellsItems (t : List Char) (items : List Json) : Prop :=
  ∀ stack before j s, Holds (.array before :: stack) j s →
    ∃ s', s.run t = some s' ∧ Holds stack (.array ((j :: before).reverse ++ items)) s'

theorem spellsItems_nil (blank : ∀ c ∈ u, isSpace c = true) : SpellsItems (u ++ [']']) [] := by
  intro stack before j s h
  obtain ⟨s', blanks, h⟩ := h.blanks blank
  have step : s'.step ']' = some (give stack (.array (j :: before).reverse)) := h.step rfl
  rw [run_then blanks, run_cons step, List.append_nil]
  exact ⟨_, rfl, .given⟩

theorem spellsItems_cons (first : Spells t j) (rest : SpellsItems u items) :
    SpellsItems (',' :: t ++ u) (j :: items) := by
  intro stack before j' s h
  have step : s.step ',' = some ⟨.array (j' :: before) :: stack, .value⟩ := h.step rfl
  obtain ⟨s', read, h⟩ := first (.array (j' :: before) :: stack)
  obtain ⟨s'', closed, h⟩ := rest stack (j' :: before) j s' h
  rw [List.cons_append, run_cons step, run_then read]
  exact ⟨s'', closed, by simpa using h⟩

theorem spells_array_nil : Spells ['[', ']'] (.array []) := fun _ => ⟨_, rfl, .given⟩

theorem spells_array_cons (first : Spells t j) (rest : SpellsItems u items) :
    Spells ('[' :: t ++ u) (.array (j :: items)) := by
  intro stack
  have step : Scanner.step ⟨stack, .value⟩ '[' = some ⟨.array [] :: stack, .valueOrClose⟩ := rfl
  obtain ⟨s, read, h⟩ := first (.array [] :: stack)
  obtain ⟨s', closed, h'⟩ := rest stack [] j s h
  rw [List.cons_append, run_cons step, run_then (run_valueOrClose read h.stand_ne)]
  exact ⟨s', closed, h'⟩

theorem hexDigit?_hexDigit {n : Nat} (h : n < 16) : hexDigit? (hexDigit n) = some n := by
  revert n
  decide

theorem run_escapeChar (stack : List Frame) (isName : Bool) (units : List TextUnit) (c : Char) :
    run ⟨stack, .text isName units⟩ (escapeChar c) =
      some ⟨stack, .text isName (.char c :: units)⟩ := by
  unfold escapeChar
  split_ifs with quote backslash _ _ _ _ _ control
  · subst quote
    rfl
  · subst backslash
    rfl
  iterate 5 · subst c; rfl
  · -- the digits written are those of the code of the character
    have high := hexDigit?_hexDigit (n := c.toNat / 16) (by omega)
    have low := hexDigit?_hexDigit (n := c.toNat % 16) (Nat.mod_lt _ (by decide))
    have code : unitOfCode (16 * (c.toNat / 16) + c.toNat % 16) = .char c := by
      rw [Nat.div_add_mod, unitOfCode, if_neg (by omega), Char.ofNat_toNat]
    have lead : run ⟨stack, .text isName units⟩ ['\\', 'u', '0', '0'] =
        some ⟨stack, .code isName units 2 0⟩ := rfl
    rw [← code]
    refine (run_then (u := [hexDigit (c.toNat / 16), hexDigit (c.toNat % 16)]) lead).trans ?_
    simp [run, Scanner.step, high, low]
  · simp [run, Scanner.step, quote, backslash, control]

theorem run_escaped (stack : List Frame) (isName : Bool) (units : List TextUnit) (cs : List Char) :
    run ⟨stack, .text isName units⟩ (cs.flatMap escapeChar) =
      some ⟨stack, .text isName ((cs.map .char).reverse ++ units)⟩ := by
  induction cs generalizing units with
  | nil => rfl
  | cons c cs ih =>
    rw [List.flatMap_cons, run_then (run_escapeChar stack isName units c), ih]
    simp

theorem joinUnits_chars (cs : List Char) : joinUnits (cs.map .char) = some cs := by
  induction cs with
  | nil => rfl
  | cons c cs ih => rw [List.map_cons, joinUnits, ih, Option.map_some]

theorem run_quote {stand : Stand} {isName : Bool}
    (opens : Scanner.step ⟨stack, stand⟩ '"' = some ⟨stack, .text isName []⟩) (k : String) :
    run ⟨stack, stand⟩ (quote k) =
      some (if isName then ⟨stack, .colon (some k)⟩ else give stack (.string k)) := by
  have units : joinUnits ((k.toList.map TextUnit.char).reverse ++ []).reverse = some k.toList := by
    simp [joinUnits_chars]
  rw [quote, List.cons_append, run_cons opens, run_then (run_escaped stack isName [] k.toList)]
  simp only [run, Scanner.step, if_true, Option.bind_some, giveText, units, Option.map_some,
    String.ofList_toList]

theorem spells_string (k : String) : Spells (quote k) (.string k) :=
  fun _ => ⟨_, run_quote rfl k, .given⟩

def named (members : List (String × Json)) : List (Option String × Json) :=
  members.map fun m => (some m.1, m.2)

theorem mapM_named (members : List (String × Json)) :
    (named members).mapM (fun m => m.1.map (·, m.2)) = some members := by
  induction members with
  | nil => rfl
  | cons m members ih =>
    rw [named, List.map_cons, List.mapM_cons, ← named, ih]
    rfl

theorem closeObject_named (members : List (String × Json)) :
    closeObject (named members) = .object members.reverse := by
  rw [closeObject, named, ← List.map_reverse, ← named, mapM_named]

def SpellsMember (t : List Char) (k : String) (j : Json) : Prop :=
  ∀ stack before stand, stand = .name ∨ stand = .nameOrClose →
    ∃ s, run ⟨.object before :: stack, stand⟩ t = some s ∧ Holds (.entry before (some k) :: stack) j s

theorem spells_member (value : Spells t j) : SpellsMember (quote k ++ ':' :: t) k j := by
  intro stack before stand hstand
  have opens : Scanner.step ⟨.object before :: stack, stand⟩ '"' =
      some ⟨.object before :: stack, .text true []⟩ := by
    rcases hstand with rfl | rfl <;> rfl
  have colon : Scanner.step ⟨.object before :: stack, .colon (some k)⟩ ':' =
      some ⟨.entry before (some k) :: stack, .value⟩ := rfl
  rw [run_then (run_quote opens k), if_pos rfl, run_cons colon]
  exact value _

theorem SpellsMember.blanks (h : SpellsMember t k j) (blank : ∀ c ∈ u, isSpace c = true) :
    SpellsMember (u ++ t) k j := by
  intro stack before stand hstand
  induction u with
  | nil => exact h stack before stand hstand
  | cons c u ih =>
    obtain ⟨first, rest⟩ := List.forall_mem_cons.mp blank
    have step : Scanner.step ⟨.object before :: stack, stand⟩ c =
        some ⟨.object before :: stack, stand⟩ := by
      rcases hstand with rfl | rfl <;> simp [Scanner.step, punctuate, first]
    rw [List.cons_append, run_cons step]
    exact ih rest

def SpellsMembers (t : List Char) (members : List (String × Json)) : Prop :=
  ∀ stack before k j s, Holds (.entry (named before) (some k) :: stack) j s →
    ∃ s', s.run t = some s' ∧ Holds stack (.object (((k, j) :: before).reverse ++ members)) s'

theorem spellsMembers_nil (blank : ∀ c ∈ u, isSpace c = true) : SpellsMembers (u ++ ['}']) [] := by
  intro stack before k j s h
  obtain ⟨s', blanks, h⟩ := h.blanks blank
  have step : s'.step '}' = some (give stack (closeObject (named ((k, j) :: before)))) := h.step rfl
  rw [run_then blanks, run_cons step, closeObject_named, List.append_nil]
  exact ⟨_, rfl, .given⟩

theorem spellsMembers_cons (first : SpellsMember t k j) (rest : SpellsMembers u members) :
    SpellsMembers (',' :: t ++ u) ((k, j) :: members) := by
  intro stack before k' j' s h
  have step : s.step ',' = some ⟨.object (named ((k', j') :: before)) :: stack, .name⟩ := h.step rfl
  obtain ⟨s', read, h⟩ := first stack (named ((k', j') :: before)) .name (.inl rfl)
  obtain ⟨s'', closed, h⟩ := rest stack ((k', j') :: before) k j s' h
  rw [List.cons_append, run_cons step, run_then read]
  exact ⟨s'', closed, by simpa using h⟩

theorem spells_object_nil : Spells ['{', '}'] (.object []) := fun _ => ⟨_, rfl, .given⟩

theorem spells_object_cons (first : SpellsMember t k j) (rest : SpellsMembers u members) :
    Spells ('{' :: t ++ u) (.object ((k, j) :: members)) := by
  intro stack
  have step : Scanner.step ⟨stack, .value⟩ '{' = some ⟨.object [] :: stack, .nameOrClose⟩ := rfl
  obtain ⟨s, read, h⟩ := first stack [] .nameOrClose (.inr rfl)
  obtain ⟨s', closed, h'⟩ := rest stack [] k j s h
  rw [List.cons_append, run_cons step, run_then read]
  exact ⟨s', closed, h'⟩

theorem run_numeral (stack : List Frame) (read : List Char) (chars : ∀ c ∈ t, isNumeral c = true) :
    run ⟨stack, .numeral read⟩ t = some ⟨stack, .numeral (t.reverse ++ read)⟩ := by
  induction t generalizing read with
  | nil => rfl
  | cons c t ih =>
    obtain ⟨first, rest⟩ := List.forall_mem_cons.mp chars
    have step : Scanner.step ⟨stack, .numeral read⟩ c = some ⟨stack, .numeral (c :: read)⟩ := by
      simp [Scanner.step, first]
    rw [run_cons step, ih _ rest, List.reverse_cons, List.append_assoc]
    rfl

theorem step_numeral (first : (c.isDigit || c == '-') = true) (stack : List Frame) :
    Scanner.step ⟨stack, .value⟩ c = some ⟨stack, .numeral [c]⟩ := by
  have other : ∀ d : Char, (d.isDigit || d == '-') = false → c ≠ d := by
    rintro d hd rfl
    exact absurd first (Bool.eq_false_iff.mp hd)
  have space : isSpace c = false := by
    simp [isSpace, other ' ' rfl, other '\n' rfl, other '\t' rfl, other '\r' rfl]
  simp [Scanner.step, punctuate, space, openValue, other '{' rfl, other '[' rfl, other '"' rfl,
    other 'n' rfl, other 't' rfl, other 'f' rfl, first]

theorem spells_literal (reads : Numeral.read? t = some j) : Spells t j := by
  intro stack
  obtain ⟨n, parsed, -⟩ := Option.map_eq_some_iff.mp reads
  obtain ⟨⟨c, r, rfl, first⟩, chars⟩ := Numeral.parse?_chars parsed
  rw [run_cons (step_numeral first stack), run_numeral _ _ (List.forall_mem_cons.mp chars).2]
  exact ⟨_, rfl, .literal (by simpa using reads)⟩

end Scanner

open Scanner

variable {j : Json}

def LeafPlain : Json → Prop
  | int n => Numeral.Ranged n
  | unreadable => False
  | _ => True

/-- If the leaf is a double, what is written of it reads as this double. -/
def LeafExact : Json → Prop
  | double x => Numeral.read? (x.text .marked).toList = some (double x)
  | _ => True

def readsDouble (x : Binary64) : Option Json → Bool
  | some (double y) => x == y
  | _ => false

theorem readsDouble_iff {x : Binary64} {o : Option Json} :
    readsDouble x o = true ↔ o = some (double x) := by
  constructor
  · intro h
    unfold readsDouble at h
    split at h
    · rw [eq_of_beq h]
    · cases h
  · rintro rfl
    exact beq_self_eq_true x

instance : DecidablePred LeafExact := fun j =>
  match j with
  | double _ => decidable_of_iff _ readsDouble_iff
  | null | bool _ | int _ | string _ | array _ | object _ | unreadable => isTrue trivial

inductive Throughout (p : Json → Prop) : Json → Prop where
  | leaf {j : Json} (leaf : j.isLeaf = true) (holds : p j) : Throughout p j
  | array {items : List Json} (each : ∀ j ∈ items, Throughout p j) : Throughout p (array items)
  | object {members : List (String × Json)} (each : ∀ m ∈ members, Throughout p m.2) :
      Throughout p (object members)

abbrev Plain : Json → Prop := Throughout LeafPlain

abbrev Exact : Json → Prop := Throughout LeafExact

namespace Throughout

variable {p : Json → Prop}

theorem items {js : List Json} (h : Throughout p (.array js)) : ∀ j ∈ js, Throughout p j := by
  cases h with
  | leaf leaf => cases leaf
  | array each => exact each

theorem members {ms : List (String × Json)} (h : Throughout p (.object ms)) :
    ∀ m ∈ ms, Throughout p m.2 := by
  cases h with
  | leaf leaf => cases leaf
  | object each => exact each

theorem holds (h : Throughout p j) (leaf : j.isLeaf = true) : p j := by
  cases h with
  | leaf _ holds => exact holds
  | array => cases leaf
  | object => cases leaf

end Throughout

theorem spells_leafText (leaf : j.isLeaf = true) (plain : LeafPlain j) (exact : LeafExact j) :
    Spells j.leafText j := by
  cases j with
  | null => exact fun _ => ⟨_, rfl, .given⟩
  | bool b => cases b <;> exact fun _ => ⟨_, rfl, .given⟩
  | int n => exact spells_literal (Numeral.read?_intText plain)
  | double x => exact spells_literal exact
  | string s => exact spells_string s
  | unreadable => exact plain.elim
  | array => cases leaf
  | object => cases leaf

theorem spellsItems_compact {items : List Json} (each : ∀ j ∈ items, Spells j.compact j) :
    SpellsItems (compactItems items) items := by
  induction items with
  | nil => exact spellsItems_nil (u := []) (by simp)
  | cons j items ih =>
    obtain ⟨first, rest⟩ := List.forall_mem_cons.mp each
    rw [compactItems]
    exact spellsItems_cons first (ih rest)

theorem spellsMembers_compact {members : List (String × Json)}
    (each : ∀ m ∈ members, Spells m.2.compact m.2) :
    SpellsMembers (compactMembers members) members := by
  induction members with
  | nil => exact spellsMembers_nil (u := []) (by simp)
  | cons m members ih =>
    obtain ⟨first, rest⟩ := List.forall_mem_cons.mp each
    have text : compactMembers (m :: members) =
        ',' :: (quote m.1 ++ ':' :: m.2.compact) ++ compactMembers members := by
      simp [compactMembers]
    rw [text]
    exact spellsMembers_cons (spells_member first) (ih rest)

theorem spells_compact (plain : Plain j) (exact : Exact j) : Spells j.compact j := by
  induction j using Json.induct with
  | array items ih =>
    cases items with
    | nil => exact spells_array_nil
    | cons j items =>
      have spelled := fun i hi => ih i hi (plain.items i hi) (exact.items i hi)
      obtain ⟨first, rest⟩ := List.forall_mem_cons.mp spelled
      rw [compact]
      exact spells_array_cons first (spellsItems_compact rest)
  | object members ih =>
    cases members with
    | nil => exact spells_object_nil
    | cons m members =>
      have spelled := fun i hi => ih i hi (plain.members i hi) (exact.members i hi)
      obtain ⟨first, rest⟩ := List.forall_mem_cons.mp spelled
      have text : compact (object (m :: members)) =
          '{' :: (quote m.1 ++ ':' :: m.2.compact) ++ compactMembers members := by
        simp [compact]
      rw [text]
      exact spells_object_cons (spells_member first) (spellsMembers_compact rest)
  | _ => exact spells_leafText rfl (plain.holds rfl) (exact.holds rfl)

theorem newLine_blank (depth : Nat) : ∀ c ∈ newLine depth, isSpace c = true := by
  intro c hc
  rcases List.mem_cons.mp hc with rfl | hc
  · rfl
  · rw [List.eq_of_mem_replicate hc]
    rfl

theorem spells_prettyMember {t : List Char} (value : Spells t j) (k : String) (depth : Nat) :
    SpellsMember (newLine depth ++ (quote k ++ ':' :: ' ' :: t)) k j :=
  (spells_member (value.blank rfl)).blanks (newLine_blank depth)

theorem spellsItems_pretty {items : List Json} (depth : Nat)
    (each : ∀ j ∈ items, Spells (j.pretty (depth + 1)) j) :
    SpellsItems (prettyItems depth items) items := by
  induction items with
  | nil => exact spellsItems_nil (newLine_blank depth)
  | cons j items ih =>
    obtain ⟨first, rest⟩ := List.forall_mem_cons.mp each
    rw [prettyItems]
    exact spellsItems_cons (first.blanks (newLine_blank _)) (ih rest)

theorem spellsMembers_pretty {members : List (String × Json)} (depth : Nat)
    (each : ∀ m ∈ members, Spells (m.2.pretty (depth + 1)) m.2) :
    SpellsMembers (prettyMembers depth members) members := by
  induction members with
  | nil => exact spellsMembers_nil (newLine_blank depth)
  | cons m members ih =>
    obtain ⟨first, rest⟩ := List.forall_mem_cons.mp each
    have text : prettyMembers depth (m :: members) =
        ',' :: (newLine (depth + 1) ++ (quote m.1 ++ ':' :: ' ' :: m.2.pretty (depth + 1))) ++
          prettyMembers depth members := by
      simp [prettyMembers]
    rw [text]
    exact spellsMembers_cons (spells_prettyMember first m.1 _) (ih rest)

theorem spells_pretty (plain : Plain j) (exact : Exact j) (depth : Nat) : Spells (j.pretty depth) j := by
  induction j using Json.induct generalizing depth with
  | array items ih =>
    cases items with
    | nil => exact spells_array_nil
    | cons j items =>
      have spelled := fun i hi => ih i hi (plain.items i hi) (exact.items i hi) (depth + 1)
      obtain ⟨first, rest⟩ := List.forall_mem_cons.mp spelled
      rw [pretty]
      exact spells_array_cons (first.blanks (newLine_blank _)) (spellsItems_pretty depth rest)
  | object members ih =>
    cases members with
    | nil => exact spells_object_nil
    | cons m members =>
      have spelled := fun i hi => ih i hi (plain.members i hi) (exact.members i hi) (depth + 1)
      obtain ⟨first, rest⟩ := List.forall_mem_cons.mp spelled
      have text : pretty depth (object (m :: members)) =
          '{' :: (newLine (depth + 1) ++ (quote m.1 ++ ':' :: ' ' :: m.2.pretty (depth + 1))) ++
            prettyMembers depth members := by
        simp [pretty]
      rw [text]
      exact spells_object_cons (spells_prettyMember first m.1 _) (spellsMembers_pretty depth rest)
  | _ => exact spells_leafText rfl (plain.holds rfl) (exact.holds rfl)

theorem Scanner.Spells.parse? {t : List Char} (h : Spells t j) : Json.parse? t = some j := by
  obtain ⟨s, run, held⟩ := h []
  rw [Json.parse?, Scanner.start, run, Option.bind_some, held.result?]

theorem parse?_toCompact (plain : Plain j) (exact : Exact j) :
    parse? j.toCompact.toList = some j := by
  rw [toCompact, String.toList_ofList]
  exact (spells_compact plain exact).parse?

theorem parse?_toPretty (plain : Plain j) (exact : Exact j) :
    parse? j.toPretty.toList = some j := by
  rw [toPretty, String.toList_ofList]
  exact (spells_pretty plain exact 0).parse?

end Json

end QuestionSynthesis
