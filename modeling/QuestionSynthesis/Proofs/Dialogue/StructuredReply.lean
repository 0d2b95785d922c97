import QuestionSynthesis.Dialogue.StructuredReply
import QuestionSynthesis.Proofs.Json.Scanner
import QuestionSynthesis.Proofs.Text.Blank

/-!
# The first object of a reply

An object begins at a place of a text if some text from there on is one (`Begins`); what follows it
does not matter. Loading finds the first object (`FirstIn`) of what it searches, which is the whole
reply, but for an opening fence and the rest of the line that the fence stands on
(`load_searches`). An object on that line is lost (`load_loses_opening_line`).
-/

namespace QuestionSynthesis

namespace StructuredReply

structure IsObject (obj : List Char) (m : Entries Json) : Prop where
  opens : obj.head? = some '{'
  closes : obj.getLast? = some '}'
  reads : (Json.parse? obj).bind members? = some m

def Begins (s : List Char) (m : Entries Json) : Prop :=
  ∃ obj rest, s = obj ++ rest ∧ IsObject obj m

/-- The object is the first one that begins anywhere in the text. -/
inductive FirstIn : List Char → Entries Json → Prop where
  | here {s m} (begins : Begins s m) : FirstIn s m
  | later {c s m} (none : ∀ m', ¬ Begins (c :: s) m') (first : FirstIn s m) : FirstIn (c :: s) m

variable {s text before after : List Char} {m : Entries Json}

theorem members?_object {j : Json} (h : members? j = some m) :
    ∃ members, j = .object members := by
  unfold members? at h
  split_ifs at h
  cases j with
  | object members => exact ⟨members, rfl⟩
  | _ => cases h

theorem IsObject.eq_braces (h : IsObject text m) : ∃ body, text = '{' :: (body ++ ['}']) := by
  obtain ⟨c, rest, rfl⟩ := List.exists_cons_of_ne_nil (l := text) fun hnil => by
    have opens := h.opens
    simp [hnil] at opens
  obtain rfl : c = '{' := by simpa using h.opens
  rcases List.eq_nil_or_concat rest with rfl | ⟨body, d, rfl⟩
  · have closes := h.closes
    simp at closes
  · have closes := h.closes
    rw [List.concat_eq_append, ← List.cons_append, List.getLast?_concat] at closes
    cases closes
    exact ⟨body, List.concat_eq_append ▸ rfl⟩

theorem isObject_braces (body : List Char) :
    IsObject ('{' :: (body ++ ['}'])) m ↔
      ∃ j, Json.Scanner.Closes '}' .opened body j ∧ members? j = some m := by
  constructor
  · intro h
    obtain ⟨j, hj, hm⟩ := Option.bind_eq_some_iff.mp h.reads
    exact ⟨j, Json.parse?_brace.mp hj, hm⟩
  · intro h
    obtain ⟨j, closes, hm⟩ := h
    refine ⟨rfl, ?_, ?_⟩
    · rw [← List.cons_append, List.getLast?_concat]
    · rw [Json.parse?_brace.mpr closes]
      exact hm

theorem Begins.head (h : Begins s m) : ∃ rest, s = '{' :: rest := by
  obtain ⟨obj, rest, rfl, object⟩ := h
  obtain ⟨body, rfl⟩ := object.eq_braces
  exact ⟨_, rfl⟩

theorem Begins.append (h : Begins s m) (after : List Char) : Begins (s ++ after) m := by
  obtain ⟨obj, rest, rfl, object⟩ := h
  exact ⟨obj, rest ++ after, List.append_assoc .., object⟩

theorem begins_append (unclosed : '}' ∉ after) : Begins (s ++ after) m ↔ Begins s m := by
  constructor
  · intro h
    obtain ⟨obj, rest, hsplit, object⟩ := h
    obtain ⟨more, rfl, rfl⟩ | ⟨more, rfl, rfl⟩ := List.append_eq_append_iff.mp hsplit
    -- An object that reaches into `after` would end there, in a closing brace.
    · rcases List.eq_nil_or_concat more with rfl | ⟨front, c, rfl⟩
      · rw [List.append_nil] at object
        exact ⟨s, [], by simp, object⟩
      · have closes := object.closes
        rw [List.concat_eq_append, ← List.append_assoc, List.getLast?_concat] at closes
        cases closes
        exact absurd (by simp) unclosed
    · exact ⟨obj, more, rfl, object⟩
  · exact fun h => h.append after

theorem objectAt?_eq_some_iff {rest : List Char} :
    objectAt? ('{' :: rest) = some m ↔ Begins ('{' :: rest) m := by
  constructor
  · intro h
    obtain ⟨⟨j, more⟩, front, hm⟩ := Option.bind_eq_some_iff.mp h
    obtain ⟨body, rfl, closes⟩ := Json.parseFront?_brace.mp front
    exact ⟨_, more, by simp, (isObject_braces body).mpr ⟨j, closes, hm⟩⟩
  · intro h
    obtain ⟨obj, more, hsplit, object⟩ := h
    obtain ⟨body, rfl⟩ := object.eq_braces
    obtain ⟨j, closes, hm⟩ := (isObject_braces body).mp object
    have hrest : rest = body ++ '}' :: more := by simpa using hsplit
    exact Option.bind_eq_some_iff.mpr ⟨_, Json.parseFront?_brace.mpr ⟨body, hrest, closes⟩, hm⟩

theorem firstObject?_eq_some_iff : firstObject? s = some m ↔ FirstIn s m := by
  induction s with
  | nil =>
    constructor
    · intro h
      cases h
    · intro h
      cases h with
      | here begins => obtain ⟨rest, hrest⟩ := begins.head; cases hrest
  | cons c s ih =>
    by_cases hc : c = '{'
    · subst hc
      cases hat : objectAt? ('{' :: s) with
      | some m' =>
        have begins := objectAt?_eq_some_iff.mp hat
        simp only [firstObject?, if_true, hat]
        constructor
        · intro h
          cases h
          exact .here begins
        · intro h
          cases h with
          | here begins' => rw [← hat]; exact objectAt?_eq_some_iff.mpr begins'
          | later none => exact absurd begins (none m')
      | none =>
        have none : ∀ m', ¬ Begins ('{' :: s) m' := by
          intro m' begins
          rw [objectAt?_eq_some_iff.mpr begins] at hat
          cases hat
        simp only [firstObject?, if_true, hat, ih]
        constructor
        · exact .later none
        · intro h
          cases h with
          | here begins => exact absurd begins (none m)
          | later _ first => exact first
    · have none : ∀ m', ¬ Begins (c :: s) m' := by
        intro m' begins
        obtain ⟨rest, hrest⟩ := begins.head
        exact hc (List.cons.inj hrest).1
      simp only [firstObject?, if_neg hc, ih]
      constructor
      · exact .later none
      · intro h
        cases h with
        | here begins => exact absurd begins (none m)
        | later _ first => exact first

theorem firstIn_append_left
    (none : ∀ p q, before = p ++ q → q ≠ [] → ∀ m, ¬ Begins (q ++ s) m) :
    FirstIn (before ++ s) m ↔ FirstIn s m := by
  induction before with
  | nil => rfl
  | cons c before ih =>
    have hrest := ih fun p q hsplit => none (c :: p) q (hsplit ▸ rfl)
    have hhead := none [] (c :: before) rfl (List.cons_ne_nil _ _)
    rw [List.cons_append, ← hrest]
    constructor
    · intro h
      cases h with
      | here begins => exact absurd begins (hhead m)
      | later _ first => exact first
    · exact .later hhead

theorem firstIn_append_left_of_not_mem (unopened : '{' ∉ before) :
    FirstIn (before ++ s) m ↔ FirstIn s m := by
  apply firstIn_append_left
  intro p q hsplit nonempty m' begins
  obtain ⟨rest, hrest⟩ := begins.head
  obtain ⟨c, q, rfl⟩ := List.exists_cons_of_ne_nil nonempty
  have hc : c = '{' := (List.cons.inj hrest).1
  subst hc hsplit
  exact unopened (List.mem_append_right _ List.mem_cons_self)

theorem firstIn_append_right (unclosed : '}' ∉ after) :
    FirstIn (s ++ after) m ↔ FirstIn s m := by
  have nothing : ∀ m', ¬ FirstIn after m' := by
    intro m' h
    induction h with
    | @here s m' begins =>
      have hempty : Begins [] m' := (begins_append unclosed).mp begins
      obtain ⟨rest, hrest⟩ := hempty.head
      cases hrest
    | later none first ih => exact ih fun hmem => unclosed (List.mem_cons_of_mem _ hmem)
  induction s with
  | nil =>
    constructor
    · exact fun h => absurd h (nothing m)
    · intro h
      cases h with
      | here begins => obtain ⟨rest, hrest⟩ := begins.head; cases hrest
  | cons c s ih =>
    constructor
    · intro h
      cases h with
      | here begins => exact .here ((begins_append unclosed).mp begins)
      | later none first =>
        exact .later (fun m' begins => none m' (begins.append after)) (ih.mp first)
    · intro h
      cases h with
      | here begins => exact .here (begins.append after)
      | later none first =>
        exact .later (fun m' begins => none m' ((begins_append unclosed).mp begins)) (ih.mpr first)

theorem firstIn_of_parse? (h : (Json.parse? s).bind members? = some m) : FirstIn s m := by
  obtain ⟨j, hj, hm⟩ := Option.bind_eq_some_iff.mp h
  obtain ⟨members, rfl⟩ := members?_object hm
  obtain ⟨spaces, more, rest, rfl, hspaces, front⟩ := Json.parse?_object hj
  have unopened : '{' ∉ spaces := fun hmem => by cases hspaces '{' hmem
  rw [firstIn_append_left_of_not_mem unopened]
  exact .here (objectAt?_eq_some_iff.mp (Option.bind_eq_some_iff.mpr ⟨_, front, hm⟩))

theorem object?_eq_some_iff : object? s = some m ↔ FirstIn s m := by
  unfold object?
  cases hparse : (Json.parse? s).bind members? with
  | none => exact firstObject?_eq_some_iff
  | some m' =>
    have first := firstObject?_eq_some_iff.mpr (firstIn_of_parse? hparse)
    rw [← firstObject?_eq_some_iff, first]

/-- How a trimmed reply divides: the line of an opening fence, and what is searched. A fence without
a line break after it has no line to itself. -/
inductive Divides : List Char → List Char → Prop where
  | unfenced {body} (none : ¬ fence <+: body) : Divides [] body
  | oneLine {body} (line : '\n' ∉ body) : Divides fence body
  | fenced {info body} (line : '\n' ∉ info) : Divides (fence ++ info ++ ['\n']) body

theorem dropFirstLine_cases (s : List Char) :
    ('\n' ∉ s ∧ dropFirstLine s = s) ∨
      ∃ info, s = info ++ '\n' :: dropFirstLine s ∧ '\n' ∉ info := by
  have line : '\n' ∉ s.takeWhile (· ≠ '\n') := by
    intro hmem
    have hne := List.all_eq_true.mp List.all_takeWhile _ hmem
    simp at hne
  have split : s.takeWhile (· ≠ '\n') ++ s.dropWhile (· ≠ '\n') = s :=
    List.takeWhile_append_dropWhile
  cases hdrop : s.dropWhile (· ≠ '\n') with
  | nil =>
    rw [hdrop, List.append_nil] at split
    rw [split] at line
    exact .inl ⟨line, by rw [dropFirstLine, hdrop]⟩
  | cons c rest =>
    have hc := List.head?_dropWhile_not (· ≠ '\n') s
    rw [hdrop] at hc split
    obtain rfl : c = '\n' := by simpa using hc
    have hrest : dropFirstLine s = rest := by rw [dropFirstLine, hdrop]
    exact .inr ⟨_, by rw [hrest, split], line⟩

theorem eq_of_stripEnding? {ending rest : List Char} (h : stripEnding? ending s = some rest) :
    s = rest ++ ending := by
  unfold stripEnding? at h
  split_ifs at h with isEnding
  obtain ⟨front, rfl⟩ := List.isSuffixOf_iff_suffix.mp isEnding
  cases h
  simp

theorem not_mem_of_blank {c : Char} (visible : Text.isBlank c = false)
    (blank : ∀ d ∈ s, Text.isBlank d = true) : c ∉ s := by
  intro hmem
  have hc := blank c hmem
  rw [visible] at hc
  cases hc

theorem firstIn_trim : FirstIn (Text.trim s) m ↔ FirstIn s m := by
  obtain ⟨before, after, hsplit, hbefore, hafter⟩ := Text.trim_split s
  calc
    FirstIn (Text.trim s) m ↔ FirstIn (before ++ Text.trim s) m :=
      (firstIn_append_left_of_not_mem (not_mem_of_blank (by decide) hbefore)).symm
    _ ↔ FirstIn (before ++ Text.trim s ++ after) m :=
      (firstIn_append_right (not_mem_of_blank (by decide) hafter)).symm
    _ ↔ FirstIn s m := by rw [← hsplit]

theorem firstIn_stripEnding :
    FirstIn ((stripEnding? fence (Text.trimRight s)).getD s) m ↔ FirstIn s m := by
  cases hstrip : stripEnding? fence (Text.trimRight s) with
  | none => rfl
  | some rest =>
    obtain ⟨after, hsplit, hafter⟩ := Text.trimRight_split s
    calc
      FirstIn rest m ↔ FirstIn (rest ++ fence) m :=
        (firstIn_append_right (by decide)).symm
      _ ↔ FirstIn (Text.trimRight s) m := by rw [eq_of_stripEnding? hstrip]
      _ ↔ FirstIn (Text.trimRight s ++ after) m :=
        (firstIn_append_right (not_mem_of_blank (by decide) hafter)).symm
      _ ↔ FirstIn s m := by rw [← hsplit]

theorem stripFence_fence (rest : List Char) (m : Entries Json) :
    FirstIn (stripFence (fence ++ rest)) m ↔ FirstIn (dropFirstLine rest) m := by
  have fenced : fence.isPrefixOf (fence ++ rest) = true :=
    List.isPrefixOf_iff_prefix.mpr (List.prefix_append ..)
  rw [stripFence, if_pos fenced, List.drop_left, firstIn_trim, firstIn_stripEnding]

theorem exists_divides (s : List Char) :
    ∃ opening body, s = opening ++ body ∧ Divides opening body ∧
      ∀ m, FirstIn (stripFence s) m ↔ FirstIn body m := by
  by_cases fenced : fence <+: s
  · obtain ⟨rest, rfl⟩ := fenced
    obtain ⟨line, hdrop⟩ | ⟨info, hsplit, line⟩ := dropFirstLine_cases rest
    · refine ⟨fence, rest, rfl, .oneLine line, fun m => ?_⟩
      rw [stripFence_fence, hdrop]
    · refine ⟨fence ++ info ++ ['\n'], dropFirstLine rest, ?_, .fenced line, stripFence_fence rest⟩
      exact (congrArg (fence ++ ·) hsplit).trans (by simp)
  · have unfenced : ¬ fence.isPrefixOf s = true := fun h =>
      fenced (List.isPrefixOf_iff_prefix.mp h)
    refine ⟨[], s, rfl, .unfenced fenced, fun m => ?_⟩
    rw [stripFence, if_neg unfenced]

/-- Loading finds the first object of what follows the line of an opening fence. That is the first
object of the whole reply unless one begins on that line. -/
theorem load_searches (text : String) :
    ∃ opening body, Text.trim text.toList = opening ++ body ∧ Divides opening body ∧
      (∀ m, FirstIn body m → load text = ⟨m, []⟩) ∧
      ((∀ m, ¬ FirstIn body m) → load text = ⟨[], [String.ofList (text.toList.take 200)]⟩) ∧
      ((∀ p q, opening = p ++ q → q ≠ [] → ∀ m, ¬ Begins (q ++ body) m) →
        ∀ m, FirstIn text.toList m ↔ FirstIn body m) := by
  obtain ⟨opening, body, hsplit, divides, searched⟩ := exists_divides (Text.trim text.toList)
  refine ⟨opening, body, hsplit, divides, ?_, ?_, ?_⟩
  · intro m first
    have hobject := object?_eq_some_iff.mpr ((searched m).mpr first)
    simp only [load, hobject]
  · intro nothing
    have hobject : object? (stripFence (Text.trim text.toList)) = none := by
      cases hobject : object? (stripFence (Text.trim text.toList)) with
      | none => rfl
      | some m => exact absurd ((searched m).mp (object?_eq_some_iff.mp hobject)) (nothing m)
    simp only [load, hobject, warningLength]
  · intro nothing m
    rw [← firstIn_trim, hsplit]
    exact firstIn_append_left nothing

/-- An object on the line of an opening fence is there, but is not loaded. -/
theorem load_loses_opening_line :
    let text := "\x60\x60\x60\x7b\"verdict\": \"No\"\x7d\n\x60\x60\x60"
    ∃ m, FirstIn text.toList m ∧ m.map Prod.fst = ["verdict"] ∧ load text = ⟨[], [text]⟩ := by
  intro text
  have found : (firstObject? text.toList).any (fun m => m.map Prod.fst = ["verdict"]) = true := by
    decide +kernel
  have missed : object? (stripFence (Text.trim text.toList)) = none :=
    Option.isNone_iff_eq_none.mp (by decide +kernel)
  have whole : String.ofList (text.toList.take warningLength) = text := by decide +kernel
  obtain ⟨m, hm, names⟩ := Option.any_eq_true _ _ |>.mp found
  refine ⟨m, firstObject?_eq_some_iff.mp hm, of_decide_eq_true names, ?_⟩
  simp only [load, missed, whole]

end StructuredReply

end QuestionSynthesis
