import Extraction.Template

/-!
# The first pair of a mark

Splitting a text at the first place where a mark stands twice in a row: the
part before holds no pair and does not end with the mark, and there is no split
only if there is no pair.
-/

namespace Extraction.Template

/-- Somewhere in a text a mark stands twice in a row. -/
def HasPair (mark : Char) (s : List Char) : Prop := [mark, mark] <:+: s

instance (mark : Char) (s : List Char) : Decidable (HasPair mark s) :=
  inferInstanceAs (Decidable ([mark, mark] <:+: s))

variable {mark a b : Char} {s before after : List Char}

theorem not_hasPair_nil : ¬ HasPair mark [] := by
  simp [HasPair]

theorem not_hasPair_singleton : ¬ HasPair mark [a] := by
  simp [HasPair, List.infix_cons_iff]

theorem hasPair_cons_cons :
    HasPair mark (a :: b :: s) ↔ (a = mark ∧ b = mark) ∨ HasPair mark (b :: s) := by
  simp [HasPair, List.infix_cons_iff, eq_comm]

theorem splitAtPair?_eq_none_iff : splitAtPair? mark s = none ↔ ¬ HasPair mark s := by
  fun_induction splitAtPair? mark s with
  | case1 => simp [not_hasPair_nil]
  | case2 => simp [not_hasPair_singleton]
  | case3 a b rest hmark => simp [hasPair_cons_cons, hmark]
  | case4 a b rest hmark ih => simp [hasPair_cons_cons, hmark, ih]

/-- The split is made at the very first pair. -/
theorem not_hasPair_of_splitAtPair? (h : splitAtPair? mark s = some (before, after)) :
    ¬ HasPair mark before ∧ before.getLast? ≠ some mark := by
  fun_induction splitAtPair? mark s generalizing before with
  | case1 => cases h
  | case2 => cases h
  | case3 a b rest hmark =>
      cases h
      exact ⟨not_hasPair_nil, by simp⟩
  | case4 a b rest hmark ih =>
      obtain ⟨⟨inner, tail⟩, hinner, heq⟩ := Option.map_eq_some_iff.mp h
      cases heq
      obtain ⟨hpair, hlast⟩ := ih hinner
      cases inner with
      | nil =>
          -- The next character begins the pair, so this one is not the mark.
          have hnext := splitAtPair?_eq_some hinner
          refine ⟨not_hasPair_singleton, ?_⟩
          rintro hmark'
          cases hmark'
          exact hmark ⟨rfl, List.head_eq_of_cons_eq hnext⟩
      | cons c inner =>
          have hnext : b = c := List.head_eq_of_cons_eq (splitAtPair?_eq_some hinner)
          subst hnext
          rw [hasPair_cons_cons, List.getLast?_cons_cons]
          exact ⟨fun h => h.elim hmark hpair, hlast⟩

/-- Text without a pair that does not end with the mark is what stands before the first pair. -/
theorem splitAtPair?_append (hpair : ¬ HasPair mark before) (hlast : before.getLast? ≠ some mark) :
    splitAtPair? mark (before ++ mark :: mark :: after) = some (before, after) := by
  induction before with
  | nil => simp [splitAtPair?]
  | cons a rest ih =>
      cases rest with
      | nil =>
          have ha : a ≠ mark := fun h => hlast (congrArg some h)
          simp [splitAtPair?, ha]
      | cons b rest =>
          rw [hasPair_cons_cons, not_or] at hpair
          rw [List.getLast?_cons_cons] at hlast
          have hrest := ih hpair.2 hlast
          simp only [List.cons_append] at hrest
          simp [splitAtPair?, hpair.1, hrest]

theorem hasPair_cons_of_ne (ha : a ≠ mark) : HasPair mark (a :: s) ↔ HasPair mark s := by
  cases s with
  | nil => simp [not_hasPair_nil, not_hasPair_singleton]
  | cons b s => simp [hasPair_cons_cons, ha]

theorem not_hasPair_of_not_mem (h : mark ∉ s) : ¬ HasPair mark s :=
  fun hpair => h (hpair.subset List.mem_cons_self)

/-- No pair arises behind a text that does not end with the mark. -/
theorem not_hasPair_append (hbefore : ¬ HasPair mark before) (hlast : before.getLast? ≠ some mark)
    (hafter : ¬ HasPair mark after) : ¬ HasPair mark (before ++ after) := by
  induction before with
  | nil => exact hafter
  | cons a rest ih =>
      cases rest with
      | nil =>
          have ha : a ≠ mark := fun h => hlast (congrArg some h)
          exact fun h => hafter ((hasPair_cons_of_ne ha).mp h)
      | cons b rest =>
          rw [hasPair_cons_cons, not_or] at hbefore
          rw [List.getLast?_cons_cons] at hlast
          rw [List.cons_append, List.cons_append, hasPair_cons_cons, not_or]
          exact ⟨hbefore.1, ih hbefore.2 hlast⟩

/-- None arises in front of a text without the mark. -/
theorem not_hasPair_append_of_not_mem (hbefore : ¬ HasPair mark before) (hafter : mark ∉ after) :
    ¬ HasPair mark (before ++ after) := by
  induction before with
  | nil => exact not_hasPair_of_not_mem hafter
  | cons a rest ih =>
      cases rest with
      | nil =>
          cases after with
          | nil => exact not_hasPair_singleton
          | cons c after =>
              have hc : c ≠ mark := fun h => hafter (h ▸ List.mem_cons_self)
              rw [List.singleton_append, hasPair_cons_cons, not_or]
              exact ⟨fun h => hc h.2, not_hasPair_of_not_mem hafter⟩
      | cons b rest =>
          rw [hasPair_cons_cons, not_or] at hbefore
          rw [List.cons_append, List.cons_append, hasPair_cons_cons, not_or]
          exact ⟨hbefore.1, ih hbefore.2⟩

end Extraction.Template
