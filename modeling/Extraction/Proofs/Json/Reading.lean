import Extraction.Json.Document
import Extraction.Proofs.Json.Numeral
import Mathlib.Data.List.Forall2

/-!
# Reading a part of a text

What is said of a text here holds with anything behind it that does not go on
with a numeral, so it can be used where the text is a part of a larger one. A
sequence of items with commas between them is read as each of its items is,
and refused for the first item that is refused.
-/

namespace Extraction.Json

variable {α : Type}

/-- A text is read as `a`, and what stands behind it is left, up to white space. -/
def Reads (run : List Char → Except Failure (α × List Char)) (text : List Char) (a : α) : Prop :=
  ∀ rest, EndsNumeral rest →
    ∃ left, run (text ++ rest) = .ok (a, left) ∧ skipSpace left = skipSpace rest

/-- A text is refused for a fault. -/
def Refuses (run : List Char → Except Failure (α × List Char)) (text : List Char) (fault : Fault) :
    Prop :=
  ∀ rest, EndsNumeral rest → ∃ failure, run (text ++ rest) = .error failure ∧
    failure.fault = fault

/-- What is read by way of another text is read when that one is. -/
theorem Reads.of_map {β : Type} {run : List Char → Except Failure (α × List Char)}
    {run' : List Char → Except Failure (β × List Char)} {text text' : List Char} {a : α}
    (h : Reads run text a) (f : α → β)
    (hrun : ∀ rest, run' (text' ++ rest) = (run (text ++ rest)).map fun (a, rest) => (f a, rest)) :
    Reads run' text' (f a) := by
  intro rest hends
  obtain ⟨left, hread, hleft⟩ := h rest hends
  exact ⟨left, by rw [hrun, hread]; rfl, hleft⟩

theorem Refuses.of_map {β : Type} {run : List Char → Except Failure (α × List Char)}
    {run' : List Char → Except Failure (β × List Char)} {text text' : List Char} {fault : Fault}
    (h : Refuses run text fault) (f : α → β)
    (hrun : ∀ rest, run' (text' ++ rest) = (run (text ++ rest)).map fun (a, rest) => (f a, rest)) :
    Refuses run' text' fault := by
  intro rest hends
  obtain ⟨failure, hread, hfault⟩ := h rest hends
  exact ⟨failure, by rw [hrun, hread]; rfl, hfault⟩

/-- Texts with commas between them. -/
def separated : List (List Char) → List Char
  | [] => []
  | [text] => text
  | text :: rest => text ++ ',' :: separated rest

theorem skipSpace_cons {c : Char} (hc : isSpace c = false) (s : List Char) :
    skipSpace (c :: s) = c :: s := by
  simp [skipSpace, hc]

theorem skipSpace_skipSpace (s : List Char) : skipSpace (skipSpace s) = skipSpace s := by
  induction s with
  | nil => rfl
  | cons c rest ih =>
      cases hc : isSpace c with
      | true => simpa [skipSpace, hc] using ih
      | false => simp [skipSpace, hc]

theorem skipSpace_append {s : List Char} {c : Char} {tail : List Char}
    (h : skipSpace s = c :: tail) (rest : List Char) :
    skipSpace (s ++ rest) = c :: (tail ++ rest) := by
  induction s with
  | nil => cases h
  | cons d s ih =>
      cases hd : isSpace d with
      | true =>
          simp only [skipSpace, List.cons_append, List.dropWhile_cons, hd] at h ih ⊢
          exact ih h
      | false =>
          rw [skipSpace_cons hd] at h
          cases h
          exact skipSpace_cons hd _

/-- Nothing but white space. -/
def AllSpace (w : List Char) : Prop := ∀ c ∈ w, isSpace c = true

theorem allSpace_nil : AllSpace [] := nofun

theorem skipSpace_allSpace_append {w : List Char} (hw : AllSpace w) (s : List Char) :
    skipSpace (w ++ s) = skipSpace s :=
  List.dropWhile_append_of_pos hw

theorem not_numeral_of_isSpace {c : Char} (hc : isSpace c = true) :
    c.isDigit = false ∧ c ≠ '.' ∧ isExponentMark c = false := by
  simp only [isSpace, Bool.or_eq_true, beq_iff_eq] at hc
  rcases hc with ((rfl | rfl) | rfl) | rfl <;> decide

theorem endsNumeral_allSpace_append {w rest : List Char} (hw : AllSpace w)
    (hrest : EndsNumeral rest) : EndsNumeral (w ++ rest) := by
  cases w with
  | nil => exact hrest
  | cons c w =>
      obtain ⟨hdigit, hpoint, hmark⟩ := not_numeral_of_isSpace (hw c List.mem_cons_self)
      exact endsNumeral_cons hdigit hpoint hmark

/-- White space in front of a text does not matter to what skips it. -/
theorem Reads.after_space {run : List Char → Except Failure (α × List Char)} {text w : List Char}
    {a : α} (h : Reads run text a) (hrun : ∀ s, run (skipSpace s) = run s) (hw : AllSpace w) :
    Reads run (w ++ text) a := by
  intro rest hends
  obtain ⟨left, hread, hleft⟩ := h rest hends
  refine ⟨left, ?_, hleft⟩
  rw [List.append_assoc, ← hrun, skipSpace_allSpace_append hw, hrun, hread]

/-- White space behind a text is left, as it counts for nothing there. -/
theorem Reads.before_space {run : List Char → Except Failure (α × List Char)} {text w : List Char}
    {a : α} (h : Reads run text a) (hw : AllSpace w) : Reads run (text ++ w) a := by
  intro rest hends
  obtain ⟨left, hread, hleft⟩ := h (w ++ rest) (endsNumeral_allSpace_append hw hends)
  refine ⟨left, by rwa [List.append_assoc], ?_⟩
  rw [hleft, skipSpace_allSpace_append hw]

theorem endsNumeral_comma (s : List Char) : EndsNumeral (',' :: s) :=
  endsNumeral_cons (by decide) (by decide) (by decide)

theorem separated_cons_cons (text next : List Char) (texts : List (List Char)) (rest : List Char) :
    separated (text :: next :: texts) ++ rest =
      text ++ ',' :: (separated (next :: texts) ++ rest) := by
  simp [separated]

/-- Several texts begin as the first of them does. -/
theorem skipSpace_separated {text : List Char} {c : Char} {tail : List Char}
    (h : skipSpace text = c :: tail) (texts : List (List Char)) (rest : List Char) :
    ∃ tail, skipSpace (separated (text :: texts) ++ rest) = c :: tail := by
  cases texts with
  | nil => exact ⟨_, skipSpace_append h rest⟩
  | cons next texts =>
      rw [separated_cons_cons]
      exact ⟨_, skipSpace_append h _⟩

/-- How the items between two brackets are read: `run` reads one, `loop` reads on from an item that
is there, up to the closing bracket, and `whole` begins behind the opening one. Neither the end of
the text nor the closing bracket is taken for an item, and neither counts as too deep. -/
structure IsSequence (run : List Char → Except Failure (α × List Char))
    (loop : List α → List Char → Except Failure (List α × List Char))
    (whole : List Char → Except Failure (List α × List Char)) (close : Char) : Prop where
  close_ends : ∀ rest, EndsNumeral (close :: rest)
  close_solid : isSpace close = false
  starts : ∀ s, (∃ c tail, skipSpace s = c :: tail ∧ c ≠ close) ∨
    ∃ failure, run s = .error failure ∧ failure.fault ≠ .tooDeep
  of_error : ∀ {read s failure}, run s = .error failure → loop read s = .error failure
  of_last : ∀ {read s a rest after}, run s = .ok (a, rest) → skipSpace rest = close :: after →
    loop read s = .ok ((a :: read).reverse, after)
  of_more : ∀ {read s a rest after c tail}, run s = .ok (a, rest) →
    skipSpace rest = ',' :: after → skipSpace after = c :: tail → c ≠ close →
    loop read s = loop (a :: read) after
  of_none : ∀ {s after}, skipSpace s = close :: after → whole s = .ok ([], after)
  of_some : ∀ {s c tail}, skipSpace s = c :: tail → c ≠ close → whole s = loop [] s

namespace IsSequence

variable {run : List Char → Except Failure (α × List Char)}
  {loop : List α → List Char → Except Failure (List α × List Char)}
  {whole : List Char → Except Failure (List α × List Char)} {close : Char}

/-- What is read, or is too deep, begins as an item does. -/
theorem starts_of (h : IsSequence run loop whole close) {text : List Char} {a : α}
    (htext : Reads run text a ∨ Refuses run text .tooDeep) :
    ∃ c tail, skipSpace text = c :: tail ∧ c ≠ close := by
  rcases h.starts text with hstarts | ⟨failure, hfailure, hshallow⟩
  · exact hstarts
  rw [← List.append_nil text] at hfailure
  rcases htext with htext | htext
  · obtain ⟨left, hrun, _⟩ := htext [] endsNumeral_nil
    rw [hrun] at hfailure
    cases hfailure
  · obtain ⟨failure', hrun, hdeep⟩ := htext [] endsNumeral_nil
    rw [hrun] at hfailure
    cases hfailure
    exact absurd hdeep hshallow

/-- Behind an item that is read the loop goes on with the next one. -/
theorem step (h : IsSequence run loop whole close) {text next : List Char} {a b : α}
    (htext : Reads run text a) (hnext : Reads run next b ∨ Refuses run next .tooDeep)
    (texts : List (List Char)) (rest : List Char) (read : List α) :
    loop read (separated (text :: next :: texts) ++ rest) =
      loop (a :: read) (separated (next :: texts) ++ rest) := by
  obtain ⟨left, hrun, hleft⟩ := htext _ (endsNumeral_comma (separated (next :: texts) ++ rest))
  rw [skipSpace_cons (by decide)] at hleft
  obtain ⟨c, _, hbegins, hc⟩ := h.starts_of hnext
  obtain ⟨tail, hspace⟩ := skipSpace_separated hbegins texts rest
  rw [separated_cons_cons]
  exact h.of_more hrun hleft hspace hc

/-- The loop is refused for what its first item is refused for. -/
theorem refuses_first (h : IsSequence run loop whole close) {text : List Char} {fault : Fault}
    (htext : Refuses run text fault) (texts : List (List Char)) {rest : List Char}
    (hends : EndsNumeral rest) (read : List α) :
    ∃ failure, loop read (separated (text :: texts) ++ rest) = .error failure ∧
      failure.fault = fault := by
  cases texts with
  | nil =>
      obtain ⟨failure, hrun, hfault⟩ := htext rest hends
      exact ⟨failure, h.of_error hrun, hfault⟩
  | cons next texts =>
      rw [separated_cons_cons]
      obtain ⟨failure, hrun, hfault⟩ := htext _ (endsNumeral_comma _)
      exact ⟨failure, h.of_error hrun, hfault⟩

/-- Items that are each read are read in their order, up to the closing bracket. -/
theorem loop_reads (h : IsSequence run loop whole close) {texts : List (List Char)} {items : List α}
    (hne : texts ≠ []) (hitems : List.Forall₂ (Reads run) texts items) {tail rest : List Char}
    (hends : EndsNumeral tail) (hclose : skipSpace tail = close :: rest) (read : List α) :
    loop read (separated texts ++ tail) = .ok (read.reverse ++ items, rest) := by
  induction hitems generalizing read with
  | nil => exact absurd rfl hne
  | @cons text item others _ hitem hothers ih =>
      cases hothers with
      | nil =>
          -- The last item is read in front of the closing bracket, each other one of a comma.
          obtain ⟨left, hrun, hleft⟩ := hitem tail hends
          rw [separated, h.of_last hrun (hleft.trans hclose)]
          simp
      | cons hnext _ =>
          rw [h.step hitem (.inl hnext), ih (List.cons_ne_nil _ _) (item :: read)]
          simp

variable {text : α → List Char} {items : List α}

/-- When each item is read or is too deep, and one is, the loop is refused for that. -/
theorem loop_refuses (h : IsSequence run loop whole close)
    (hitems : ∀ item ∈ items, Reads run (text item) item ∨ Refuses run (text item) .tooDeep)
    (hdeep : ∃ item ∈ items, Refuses run (text item) .tooDeep) (rest : List Char) (read : List α) :
    ∃ failure, loop read (separated (items.map text) ++ close :: rest) = .error failure ∧
      failure.fault = .tooDeep := by
  induction items generalizing read with
  | nil => simp at hdeep
  | cons item others ih =>
      obtain ⟨hitem, hothers⟩ := List.forall_mem_cons.mp hitems
      obtain ⟨deep, hmem, hrefuses⟩ := hdeep
      rcases hitem with hreads | hrefuses'
      · rcases List.mem_cons.mp hmem with rfl | hmem
        · exact h.refuses_first hrefuses _ (h.close_ends rest) read
        · -- The one that is too deep comes later, so there is a next item to go on with.
          obtain ⟨next, others, rfl⟩ := List.exists_cons_of_ne_nil (List.ne_nil_of_mem hmem)
          have hrest := ih hothers ⟨deep, hmem, hrefuses⟩ (item :: read)
          simp only [List.map_cons] at hrest ⊢
          rw [h.step hreads (hothers next List.mem_cons_self)]
          exact hrest
      · exact h.refuses_first hrefuses' _ (h.close_ends rest) read

/-- Behind the opening bracket the loop begins, when there is an item to begin with. -/
theorem whole_eq_loop (h : IsSequence run loop whole close) {text : List Char} {a : α}
    (htext : Reads run text a ∨ Refuses run text .tooDeep) (texts : List (List Char))
    (rest : List Char) :
    whole (separated (text :: texts) ++ rest) = loop [] (separated (text :: texts) ++ rest) := by
  obtain ⟨c, _, hbegins, hc⟩ := h.starts_of htext
  obtain ⟨tail, hspace⟩ := skipSpace_separated hbegins texts rest
  exact h.of_some hspace hc

/-- Between brackets, items that are each read are read in their order. -/
theorem reads_spaced (h : IsSequence run loop whole close) {texts : List (List Char)}
    (hitems : List.Forall₂ (Reads run) texts items) {w : List Char} (hw : AllSpace w) :
    Reads whole (separated texts ++ (w ++ [close])) items := by
  intro rest _
  refine ⟨rest, ?_, rfl⟩
  have hclose : skipSpace (w ++ close :: rest) = close :: rest := by
    rw [skipSpace_allSpace_append hw, skipSpace_cons h.close_solid]
  have hends := endsNumeral_allSpace_append hw (h.close_ends rest)
  rw [List.append_assoc, List.append_assoc, List.singleton_append]
  cases hitems with
  | nil => exact h.of_none hclose
  | cons hitem hothers =>
      rw [h.whole_eq_loop (.inl hitem),
        h.loop_reads (List.cons_ne_nil _ _) (.cons hitem hothers) hends hclose]
      rfl

theorem forall₂_map_reads (hitems : ∀ item ∈ items, Reads run (text item) item) :
    List.Forall₂ (Reads run) (items.map text) items :=
  List.forall₂_map_left_iff.mpr (List.forall₂_same.mpr hitems)

theorem reads (h : IsSequence run loop whole close)
    (hitems : ∀ item ∈ items, Reads run (text item) item) :
    Reads whole (separated (items.map text) ++ [close]) items :=
  h.reads_spaced (forall₂_map_reads hitems) allSpace_nil

/-- Between brackets, items one of which is too deep are refused for that. -/
theorem refuses (h : IsSequence run loop whole close)
    (hitems : ∀ item ∈ items, Reads run (text item) item ∨ Refuses run (text item) .tooDeep)
    (hdeep : ∃ item ∈ items, Refuses run (text item) .tooDeep) :
    Refuses whole (separated (items.map text) ++ [close]) .tooDeep := by
  intro rest _
  rw [List.append_assoc, List.singleton_append]
  cases items with
  | nil => simp at hdeep
  | cons item others =>
      rw [List.map_cons, h.whole_eq_loop (hitems item List.mem_cons_self), ← List.map_cons]
      exact h.loop_refuses hitems hdeep rest []

end IsSequence

end Extraction.Json
