/-!
# Patterns of text

A pattern is matched against the front of a text. Nothing is said of which way
to match it comes first: a part that may be missing may be left out, and a
repetition may end after any number of rounds, whether or not one more is
possible.
-/

namespace Extraction

/-- What the front of a text may be. -/
inductive Pattern
  | word (text : String)
  | char (allowed : Char → Bool)
  | seq (first second : Pattern)
  | maybe (inner : Pattern)
  | many (inner : Pattern)
  /-- The end of the text, and not the last line break in front of it. -/
  | finish

namespace Pattern

/-- What is left of a text behind a front that fits a pattern. -/
inductive Leaves : Pattern → List Char → List Char → Prop
  | word {text : String} {rest : List Char} : Leaves (.word text) (text.toList ++ rest) rest
  | char {allowed : Char → Bool} {c : Char} {rest : List Char} : allowed c = true →
      Leaves (.char allowed) (c :: rest) rest
  | seq {first second : Pattern} {s middle rest : List Char} : Leaves first s middle →
      Leaves second middle rest → Leaves (.seq first second) s rest
  | skipped {inner : Pattern} {s : List Char} : Leaves (.maybe inner) s s
  | present {inner : Pattern} {s rest : List Char} : Leaves inner s rest →
      Leaves (.maybe inner) s rest
  | done {inner : Pattern} {s : List Char} : Leaves (.many inner) s s
  | again {inner : Pattern} {s middle rest : List Char} : Leaves inner s middle →
      Leaves (.many inner) middle rest → Leaves (.many inner) s rest
  | finish : Leaves .finish [] []

variable {s rest : List Char}

theorem leaves_word_iff {text : String} :
    (word text).Leaves s rest ↔ s = text.toList ++ rest := by
  constructor
  · rintro ⟨⟩
    rfl
  · rintro rfl
    exact .word

theorem leaves_char_iff {allowed : Char → Bool} :
    (char allowed).Leaves s rest ↔ ∃ c, allowed c = true ∧ s = c :: rest := by
  constructor
  · rintro ⟨⟩
    exact ⟨_, ‹_›, rfl⟩
  · rintro ⟨c, hc, rfl⟩
    exact .char hc

theorem leaves_seq_iff {first second : Pattern} :
    (seq first second).Leaves s rest ↔
      ∃ middle, first.Leaves s middle ∧ second.Leaves middle rest := by
  constructor
  · rintro ⟨⟩
    exact ⟨_, ‹_›, ‹_›⟩
  · rintro ⟨middle, hfirst, hsecond⟩
    exact .seq hfirst hsecond

theorem leaves_maybe_iff {inner : Pattern} :
    (maybe inner).Leaves s rest ↔ s = rest ∨ inner.Leaves s rest := by
  constructor
  · intro h
    cases h with
    | skipped => exact .inl rfl
    | present h => exact .inr h
  · rintro (rfl | h)
    · exact .skipped
    · exact .present h

theorem leaves_finish_iff : finish.Leaves s rest ↔ s = [] ∧ rest = [] := by
  constructor
  · rintro ⟨⟩
    exact ⟨rfl, rfl⟩
  · rintro ⟨rfl, rfl⟩
    exact .finish

/-- A repetition may end behind any number of characters that are allowed. -/
theorem leaves_many_char_iff {allowed : Char → Bool} :
    (many (char allowed)).Leaves s rest ↔
      ∃ taken, s = taken ++ rest ∧ ∀ c ∈ taken, allowed c = true := by
  constructor
  · generalize hpattern : many (char allowed) = pattern
    intro h
    induction h with
    | done => exact ⟨[], rfl, List.forall_mem_nil _⟩
    | again hfirst _ _ ih =>
        cases hpattern
        obtain ⟨c, hc, rfl⟩ := leaves_char_iff.mp hfirst
        obtain ⟨taken, rfl, htaken⟩ := ih rfl
        exact ⟨c :: taken, rfl, List.forall_mem_cons.mpr ⟨hc, htaken⟩⟩
    | _ => cases hpattern
  · rintro ⟨taken, rfl, htaken⟩
    induction taken with
    | nil => exact .done
    | cons c taken ih =>
        obtain ⟨hc, htaken⟩ := List.forall_mem_cons.mp htaken
        exact .again (.char hc) (ih htaken)

end Pattern

end Extraction
