import QuestionSynthesis.Text.Blank

/-!
# Trimmed texts

A trimmed text neither begins nor ends with a blank.
-/

namespace QuestionSynthesis

namespace Text

def Bare (s : List Char) : Prop :=
  (∀ c ∈ s.head?, isBlank c = false) ∧ ∀ c ∈ s.getLast?, isBlank c = false

theorem isBlank_of_mem_head?_trimLeft {s : List Char} {c : Char} (h : c ∈ (trimLeft s).head?) :
    isBlank c = false := by
  have hnot := List.head?_dropWhile_not isBlank s
  rw [show (s.dropWhile isBlank).head? = some c from h] at hnot
  exact hnot

theorem trimRight_prefix (s : List Char) : trimRight s <+: s := by
  have hsuffix := List.dropWhile_suffix isBlank (l := s.reverse)
  simpa [trimRight] using List.reverse_prefix.mpr hsuffix

theorem trimLeft_split (s : List Char) :
    ∃ blanks, s = blanks ++ trimLeft s ∧ ∀ c ∈ blanks, isBlank c = true :=
  ⟨s.takeWhile isBlank, List.takeWhile_append_dropWhile.symm,
    List.all_eq_true.mp List.all_takeWhile⟩

theorem trimRight_split (s : List Char) :
    ∃ blanks, s = trimRight s ++ blanks ∧ ∀ c ∈ blanks, isBlank c = true := by
  obtain ⟨blanks, hsplit, blank⟩ := trimLeft_split s.reverse
  refine ⟨blanks.reverse, ?_, by simpa using blank⟩
  calc
    s = s.reverse.reverse := (List.reverse_reverse s).symm
    _ = (blanks ++ trimLeft s.reverse).reverse := congrArg List.reverse hsplit
    _ = trimRight s ++ blanks.reverse := List.reverse_append

theorem trim_split (s : List Char) :
    ∃ before after, s = before ++ trim s ++ after ∧ (∀ c ∈ before, isBlank c = true) ∧
      ∀ c ∈ after, isBlank c = true := by
  obtain ⟨before, hleft, hbefore⟩ := trimLeft_split s
  obtain ⟨after, hright, hafter⟩ := trimRight_split (trimLeft s)
  refine ⟨before, after, ?_, hbefore, hafter⟩
  rw [List.append_assoc, trim, ← hright]
  exact hleft

theorem trim_bare (s : List Char) : Bare (trim s) := by
  refine ⟨fun c hc => ?_, fun c hc => ?_⟩
  · obtain ⟨rest, hrest⟩ := trimRight_prefix (trimLeft s)
    apply isBlank_of_mem_head?_trimLeft (s := s)
    rw [← hrest, List.head?_append, show (trimRight (trimLeft s)).head? = some c from hc]
    rfl
  · apply isBlank_of_mem_head?_trimLeft (s := (trimLeft s).reverse)
    rwa [trim, trimRight, List.getLast?_reverse] at hc

theorem trimmed_bare (s : String) : Bare (trimmed s).toList := by
  simpa [trimmed] using trim_bare s.toList

section

variable {c : Char}

theorem trimLeft_append_cons (visible : isBlank c = false) (before after : List Char) :
    trimLeft (before ++ c :: after) = trimLeft before ++ c :: after := by
  have hstop : (c :: after).dropWhile isBlank = c :: after := by
    rw [List.dropWhile_cons, visible]
    rfl
  unfold trimLeft
  rw [List.dropWhile_append, hstop]
  split
  · next hnone => rw [List.isEmpty_iff.mp hnone, List.nil_append]
  · rfl

theorem trimLeft_cons (visible : isBlank c = false) (r : List Char) : trimLeft (c :: r) = c :: r :=
  trimLeft_append_cons visible [] r

theorem trimRight_append_cons (visible : isBlank c = false) (before after : List Char) :
    trimRight (before ++ c :: after) = before ++ c :: trimRight after := by
  have hreverse : (before ++ c :: after).reverse = after.reverse ++ c :: before.reverse := by simp
  have hleft := trimLeft_append_cons visible after.reverse before.reverse
  calc
    trimRight (before ++ c :: after) = (trimLeft (after.reverse ++ c :: before.reverse)).reverse :=
      congrArg (fun s => (trimLeft s).reverse) hreverse
    _ = (trimLeft after.reverse ++ c :: before.reverse).reverse := congrArg List.reverse hleft
    _ = before ++ c :: trimRight after := by simp [trimRight, trimLeft]

theorem trim_of_bare {s : List Char} (h : Bare s) : trim s = s := by
  obtain ⟨hfirst, hlast⟩ := h
  have hleft : trimLeft s = s := by
    cases s with
    | nil => rfl
    | cons d r => exact trimLeft_cons (hfirst d rfl) r
  rcases List.eq_nil_or_concat s with rfl | ⟨r, d, rfl⟩
  · rfl
  · rw [List.concat_eq_append] at hlast hleft ⊢
    rw [trim, hleft]
    exact trimRight_append_cons (hlast d (by simp)) r []

theorem trim_of_visible {s : List Char} (h : ∀ c ∈ s, isBlank c = false) : trim s = s :=
  trim_of_bare ⟨fun c hc => h c (List.mem_of_mem_head? hc),
    fun c hc => h c (List.mem_of_mem_getLast? hc)⟩

theorem trim_cons (visible : isBlank c = false) (r : List Char) :
    trim (c :: r) = c :: trimRight r := by
  rw [trim, trimLeft_cons visible]
  exact trimRight_append_cons visible [] r

theorem isBlank_of_isDigit (h : c.isDigit = true) : isBlank c = false := by
  have range : 48 ≤ c.toNat ∧ c.toNat ≤ 57 := by
    simpa [Char.isDigit, UInt32.le_iff_toNat_le] using h
  simp [isBlank]
  omega

end

end Text

end QuestionSynthesis
