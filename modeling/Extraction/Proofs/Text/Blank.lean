import Extraction.Text.Blank

/-!
# What trimming removes

A text is its trimmed form with blank characters around it, and blank
characters around a text do not change its trimmed form.
-/

namespace Extraction.Text

/-- Nothing but blank characters. -/
def AllBlank (s : List Char) : Prop := ∀ c ∈ s, isBlankChar c = true

instance (s : List Char) : Decidable (AllBlank s) := List.decidableBAll _ s

theorem trimLeft_append {w : List Char} (hw : AllBlank w) (s : List Char) :
    trimLeft (w ++ s) = trimLeft s :=
  List.dropWhile_append_of_pos hw

theorem AllBlank.reverse {w : List Char} (hw : AllBlank w) : AllBlank w.reverse :=
  fun c hc => hw c (List.mem_reverse.mp hc)

theorem trimRight_append {w : List Char} (hw : AllBlank w) (s : List Char) :
    trimRight (s ++ w) = trimRight s := by
  rw [trimRight, List.reverse_append, trimLeft_append hw.reverse, trimRight]

theorem exists_append_trimLeft (s : List Char) : ∃ w, AllBlank w ∧ s = w ++ trimLeft s := by
  refine ⟨s.takeWhile isBlankChar, ?_, List.takeWhile_append_dropWhile.symm⟩
  intro c hc
  exact List.all_eq_true.mp List.all_takeWhile c hc

theorem exists_trimRight_append (s : List Char) : ∃ w, AllBlank w ∧ s = trimRight s ++ w := by
  obtain ⟨w, hw, hs⟩ := exists_append_trimLeft s.reverse
  refine ⟨w.reverse, hw.reverse, ?_⟩
  simpa [trimRight] using congrArg List.reverse hs

/-- A text is its trimmed form between blank characters. -/
theorem exists_append_trim_append (s : List Char) :
    ∃ w w', AllBlank w ∧ AllBlank w' ∧ s = w ++ trim s ++ w' := by
  obtain ⟨w, hw, hs⟩ := exists_append_trimLeft s
  obtain ⟨w', hw', hs'⟩ := exists_trimRight_append (trimLeft s)
  refine ⟨w, w', hw, hw', ?_⟩
  rw [List.append_assoc, trim, ← hs', ← hs]

/-- Blank characters around a text that neither begins nor ends with one are trimmed off. -/
theorem trim_append_cons_append {w w' : List Char} (hw : AllBlank w) (hw' : AllBlank w') {c : Char}
    {s : List Char} (hfirst : isBlankChar c = false) (hlast : trimRight (c :: s) = c :: s) :
    trim (w ++ c :: (s ++ w')) = c :: s := by
  rw [trim, trimLeft_append hw, trimLeft_cons_of_not_blank hfirst, ← List.cons_append,
    trimRight_append hw', hlast]

theorem not_blank_of_head?_trimLeft {s : List Char} {c : Char} (h : c ∈ (trimLeft s).head?) :
    isBlankChar c = false := by
  have hfirst := List.head?_dropWhile_not isBlankChar s
  rw [← trimLeft, h] at hfirst
  exact hfirst

theorem trimLeft_of_head? {s : List Char} (h : ∀ c ∈ s.head?, isBlankChar c = false) :
    trimLeft s = s := by
  cases s with
  | nil => rfl
  | cons c rest => exact trimLeft_cons_of_not_blank (h c rfl)

theorem trimRight_of_getLast? {s : List Char} (h : ∀ c ∈ s.getLast?, isBlankChar c = false) :
    trimRight s = s := by
  rw [trimRight, trimLeft_of_head?, List.reverse_reverse]
  rwa [List.head?_reverse]

/-- What is left of a text without the blank characters at both of its ends. -/
structure TrimsTo (s r : List Char) : Prop where
  around : ∃ w w', AllBlank w ∧ AllBlank w' ∧ s = w ++ r ++ w'
  head?_not_blank : ∀ c ∈ r.head?, isBlankChar c = false
  getLast?_not_blank : ∀ c ∈ r.getLast?, isBlankChar c = false

theorem trimsTo_trim (s : List Char) : TrimsTo s (trim s) where
  around := exists_append_trim_append s
  head?_not_blank := by
    intro c hc
    -- Trimming on the right leaves the first character alone, unless nothing is left.
    obtain ⟨w, _, hw⟩ := exists_trimRight_append (trimLeft s)
    apply not_blank_of_head?_trimLeft (s := s)
    rw [hw, List.head?_append]
    rw [trim] at hc
    rw [hc]
    rfl
  getLast?_not_blank := by
    intro c hc
    rw [trim, trimRight, List.getLast?_reverse] at hc
    exact not_blank_of_head?_trimLeft hc

/-- Only the trimmed text is left. -/
theorem trimsTo_iff {s r : List Char} : TrimsTo s r ↔ trim s = r := by
  constructor
  · rintro ⟨⟨w, w', hw, hw', rfl⟩, hfirst, hlast⟩
    rw [List.append_assoc]
    cases r with
    | nil =>
        have hempty := trimLeft_append hw' []
        rw [List.append_nil] at hempty
        rw [trim, trimLeft_append hw, List.nil_append, hempty]
        rfl
    | cons c rest =>
        exact trim_append_cons_append hw hw' (hfirst c rfl) (trimRight_of_getLast? hlast)
  · rintro rfl
    exact trimsTo_trim s

/-- There is nothing left to trim in a trimmed text. -/
theorem trim_trim (s : List Char) : trim (trim s) = trim s := by
  have h := trimsTo_trim s
  exact trimsTo_iff.mp
    ⟨⟨[], [], nofun, nofun, by simp⟩, h.head?_not_blank, h.getLast?_not_blank⟩

end Extraction.Text
