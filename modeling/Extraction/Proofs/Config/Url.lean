import Extraction.Config.Url
import Extraction.Proofs.Text.Pattern
import Mathlib.Data.List.TakeWhile

/-!
# Web addresses as a pattern

Behind the two slashes the pattern has two repetitions that can take the same
characters, a part that may be missing, and the end of the text. Still it does
not matter where the host is taken to end: the first character must be none that
ends a host, no character may be blank, and nothing more is asked.
-/

namespace Extraction.Config

open Pattern Text

/-- At least one character that may stand in the host. -/
def hostPattern : Pattern := .seq (.char isHostChar) (.many (.char isHostChar))

/-- A path, query or fragment, or nothing, and then the end of the text. -/
def tailPattern : Pattern :=
  .seq (.maybe (.seq (.char endsHost) (.many (.char (!isBlankChar ·))))) .finish

/-- The whole of a web address. -/
def addressPattern : Pattern :=
  .seq (.word "http") (.seq (.maybe (.word "s"))
    (.seq (.word "://") (.seq hostPattern tailPattern)))

/-- The first character is none that ends the host, and no character is blank. -/
structure FollowsSlashes (s : List Char) : Prop where
  begins : ∃ c rest, s = c :: rest ∧ c ≠ '/' ∧ c ≠ '?' ∧ c ≠ '#'
  solid : ∀ c ∈ s, isBlankChar c = false

variable {s tail rest : List Char} {c : Char}

theorem isHostChar_iff : isHostChar c = true ↔
    isBlankChar c = false ∧ c ≠ '/' ∧ c ≠ '?' ∧ c ≠ '#' := by
  simp [isHostChar, endsHost, and_assoc]

theorem leaves_hostPattern_iff : hostPattern.Leaves s rest ↔
    ∃ host, host ≠ [] ∧ s = host ++ rest ∧ ∀ c ∈ host, isHostChar c = true := by
  simp only [hostPattern, leaves_seq_iff, leaves_char_iff, leaves_many_char_iff]
  constructor
  · rintro ⟨_, ⟨c, hc, rfl⟩, taken, rfl, htaken⟩
    exact ⟨c :: taken, List.cons_ne_nil _ _, rfl, List.forall_mem_cons.mpr ⟨hc, htaken⟩⟩
  · rintro ⟨host, hne, rfl, hhost⟩
    obtain ⟨c, taken, rfl⟩ := List.exists_cons_of_ne_nil hne
    obtain ⟨hc, htaken⟩ := List.forall_mem_cons.mp hhost
    exact ⟨taken ++ rest, ⟨c, hc, rfl⟩, taken, rfl, htaken⟩

theorem leaves_tailPattern_iff : tailPattern.Leaves s rest ↔
    rest = [] ∧
      (s = [] ∨ ∃ c t, s = c :: t ∧ endsHost c = true ∧ ∀ d ∈ t, isBlankChar d = false) := by
  simp only [tailPattern, leaves_seq_iff, leaves_maybe_iff, leaves_char_iff, leaves_many_char_iff,
    leaves_finish_iff, Bool.not_eq_true']
  constructor
  · rintro ⟨_, rfl | ⟨_, ⟨c, hc, rfl⟩, t, rfl, ht⟩, rfl, rfl⟩
    · exact ⟨rfl, .inl rfl⟩
    · exact ⟨rfl, .inr ⟨c, t, by rw [List.append_nil], hc, ht⟩⟩
  · rintro ⟨rfl, rfl | ⟨c, t, rfl, hc, ht⟩⟩
    · exact ⟨[], .inl rfl, rfl, rfl⟩
    · exact ⟨[], .inr ⟨t, ⟨c, hc, rfl⟩, t, (List.append_nil t).symm, ht⟩, rfl, rfl⟩

theorem endsHost_of_not_isHostChar (hblank : isBlankChar c = false) (hc : isHostChar c = false) :
    endsHost c = true := by
  simpa [isHostChar, hblank] using hc

/-- The host ends where it can be longest. -/
theorem eq_dropWhile_of_leaves (hhost : hostPattern.Leaves s tail)
    (htail : tailPattern.Leaves tail rest) : tail = s.dropWhile isHostChar := by
  obtain ⟨host, _, rfl, hchars⟩ := leaves_hostPattern_iff.mp hhost
  rw [List.dropWhile_append_of_pos hchars]
  obtain ⟨_, rfl | ⟨c, t, rfl, hc, _⟩⟩ := leaves_tailPattern_iff.mp htail
  · rfl
  · rw [List.dropWhile_cons_of_neg]
    simp [isHostChar, hc]

/-- A host taken as long as it can be, and what is left of the text, are a host and a tail. -/
theorem exists_leaves_of_isHostAndTail (h : isHostAndTail s = true) :
    ∃ tail rest, hostPattern.Leaves s tail ∧ tailPattern.Leaves tail rest := by
  simp only [isHostAndTail, Bool.and_eq_true, Bool.not_eq_true', List.isEmpty_eq_false_iff] at h
  obtain ⟨hhost, htail⟩ := h
  refine ⟨s.dropWhile isHostChar, [], leaves_hostPattern_iff.mpr ?_, leaves_tailPattern_iff.mpr ?_⟩
  · exact ⟨s.takeWhile isHostChar, hhost, List.takeWhile_append_dropWhile.symm,
      fun c hc => List.mem_takeWhile_imp hc⟩
  · refine ⟨rfl, ?_⟩
    split at htail
    next hnil => exact .inl hnil
    next c t hcons =>
      simp only [Bool.and_eq_true, List.all_eq_true, Bool.not_eq_true'] at htail
      exact .inr ⟨c, t, hcons, htail⟩

theorem not_blank_of_endsHost (hc : endsHost c = true) : isBlankChar c = false := by
  simp only [endsHost, Bool.or_eq_true, beq_iff_eq] at hc
  rcases hc with (rfl | rfl) | rfl <;> decide

theorem followsSlashes_of_leaves (hhost : hostPattern.Leaves s tail)
    (htail : tailPattern.Leaves tail rest) : FollowsSlashes s := by
  obtain ⟨host, hne, rfl, hchars⟩ := leaves_hostPattern_iff.mp hhost
  obtain ⟨first, others, rfl⟩ := List.exists_cons_of_ne_nil hne
  have hfirst := isHostChar_iff.mp (hchars first List.mem_cons_self)
  refine ⟨⟨first, others ++ tail, rfl, hfirst.2⟩, List.forall_mem_append.mpr ⟨?_, ?_⟩⟩
  · intro c hc
    exact (isHostChar_iff.mp (hchars c hc)).1
  · obtain ⟨_, rfl | ⟨c, t, rfl, hc, ht⟩⟩ := leaves_tailPattern_iff.mp htail
    · exact List.forall_mem_nil _
    · exact List.forall_mem_cons.mpr ⟨not_blank_of_endsHost hc, ht⟩

theorem isHostAndTail_of_followsSlashes (h : FollowsSlashes s) : isHostAndTail s = true := by
  obtain ⟨⟨first, others, rfl, hfirst⟩, hsolid⟩ := h
  obtain ⟨hfirstSolid, hothers⟩ := List.forall_mem_cons.mp hsolid
  have hhost : isHostChar first = true := isHostChar_iff.mpr ⟨hfirstSolid, hfirst⟩
  simp only [isHostAndTail, List.takeWhile_cons_of_pos hhost, List.dropWhile_cons_of_pos hhost,
    List.isEmpty_cons, Bool.not_false, Bool.true_and]
  split
  next => rfl
  next c t hcons =>
    -- The host ends at this character, and not for being blank.
    have hmem : ∀ d ∈ c :: t, isBlankChar d = false := fun d hd =>
      hothers d ((List.dropWhile_sublist _).subset (hcons ▸ hd))
    obtain ⟨hc, ht⟩ := List.forall_mem_cons.mp hmem
    have hends : isHostChar c = false := by
      simpa [hcons] using List.head?_dropWhile_not isHostChar others
    simpa [endsHost_of_not_isHostChar hc hends] using ht

theorem isHostAndTail_iff_followsSlashes : isHostAndTail s = true ↔ FollowsSlashes s := by
  constructor
  · intro h
    obtain ⟨tail, rest, hhost, htail⟩ := exists_leaves_of_isHostAndTail h
    exact followsSlashes_of_leaves hhost htail
  · exact isHostAndTail_of_followsSlashes

theorem exists_leaves_iff_followsSlashes :
    (∃ tail rest, hostPattern.Leaves s tail ∧ tailPattern.Leaves tail rest) ↔ FollowsSlashes s := by
  constructor
  · rintro ⟨tail, rest, hhost, htail⟩
    exact followsSlashes_of_leaves hhost htail
  · intro h
    exact exists_leaves_of_isHostAndTail (isHostAndTail_of_followsSlashes h)

theorem afterScheme?_eq_some_iff : afterScheme? s = some rest ↔
    s = "http://".toList ++ rest ∨ s = "https://".toList ++ rest := by
  constructor
  · intro h
    unfold afterScheme? at h
    split at h
    next => cases h; exact .inl rfl
    next => cases h; exact .inr rfl
    next => cases h
  · rintro (rfl | rfl) <;> rfl

theorem leaves_addressPattern_iff : addressPattern.Leaves s rest ↔
    ∃ after, afterScheme? s = some after ∧
      ∃ tail, hostPattern.Leaves after tail ∧ tailPattern.Leaves tail rest := by
  simp only [addressPattern, leaves_seq_iff, leaves_word_iff, leaves_maybe_iff,
    afterScheme?_eq_some_iff]
  constructor
  · rintro ⟨_, rfl, _, rfl | rfl, after, rfl, h⟩
    · exact ⟨after, .inl rfl, h⟩
    · exact ⟨after, .inr rfl, h⟩
  · rintro ⟨after, rfl | rfl, h⟩
    · exact ⟨_, rfl, _, .inl rfl, after, rfl, h⟩
    · exact ⟨_, rfl, _, .inr rfl, after, rfl, h⟩

/-- A text is a web address exactly when it is one of the two schemes, the slashes, and behind them
a text that does not begin with what ends a host and has no blank character in it. It is the same to
match the pattern, in any way: a match goes up to the end of the text, and its host is as long as it
can be. -/
theorem isWebAddress_iff (u : String) :
    (isWebAddress u = true ↔ ∃ scheme r : String, (scheme = "http" ∨ scheme = "https") ∧
      u = scheme ++ "://" ++ r ∧ FollowsSlashes r.toList) ∧
    (isWebAddress u = true ↔ ∃ rest, addressPattern.Leaves u.toList rest) ∧
    ∀ s tail rest, hostPattern.Leaves s tail → tailPattern.Leaves tail rest →
      tail = s.dropWhile isHostChar ∧ rest = [] := by
  refine ⟨?_, ?_, fun s tail rest hhost htail => ?_⟩
  · rw [isWebAddress, Option.any_eq_true]
    constructor
    · rintro ⟨after, hafter, hhost⟩
      have hfollows := isHostAndTail_iff_followsSlashes.mp hhost
      rcases afterScheme?_eq_some_iff.mp hafter with hu | hu
      · refine ⟨"http", String.ofList after, .inl rfl, ?_, by rwa [String.toList_ofList]⟩
        rw [← String.toList_inj, hu]
        simp
      · refine ⟨"https", String.ofList after, .inr rfl, ?_, by rwa [String.toList_ofList]⟩
        rw [← String.toList_inj, hu]
        simp
    · rintro ⟨scheme, r, hscheme, rfl, hfollows⟩
      refine ⟨r.toList, afterScheme?_eq_some_iff.mpr ?_,
        isHostAndTail_iff_followsSlashes.mpr hfollows⟩
      rcases hscheme with rfl | rfl
      · exact .inl (by simp)
      · exact .inr (by simp)
  · rw [isWebAddress, Option.any_eq_true]
    simp only [leaves_addressPattern_iff, isHostAndTail_iff_followsSlashes,
      ← exists_leaves_iff_followsSlashes]
    constructor
    · rintro ⟨after, hafter, tail, rest, hmatch⟩
      exact ⟨rest, after, hafter, tail, hmatch⟩
    · rintro ⟨rest, after, hafter, tail, hmatch⟩
      exact ⟨after, hafter, tail, rest, hmatch⟩
  · exact ⟨eq_dropWhile_of_leaves hhost htail, (leaves_tailPattern_iff.mp htail).1⟩

/-- The host of this address ends at the question mark, and a line break at its end is refused. -/
theorem isWebAddress_iff_question :
    isWebAddress "https://a?b/c" = true ∧ isWebAddress "https://a?b/c\n" = false ∧
      "?b/c".toList = "a?b/c".toList.dropWhile isHostChar := by
  obtain ⟨haddress, _, hhost⟩ := isWebAddress_iff "https://a?b/c"
  have hleaves : hostPattern.Leaves "a?b/c".toList "?b/c".toList :=
    leaves_hostPattern_iff.mpr ⟨['a'], by decide, rfl, List.forall_mem_singleton.mpr (by decide)⟩
  have hsolid : ∀ c ∈ "a?b/c".toList, isBlankChar c = false := by
    have hall : "a?b/c".toList.all (!isBlankChar ·) = true := by decide
    simpa only [List.all_eq_true, Bool.not_eq_true'] using hall
  have hend : ∀ c ∈ "b/c".toList, isBlankChar c = false := fun c hc =>
    hsolid c (List.mem_cons_of_mem _ (List.mem_cons_of_mem _ hc))
  have htail : tailPattern.Leaves "?b/c".toList [] :=
    leaves_tailPattern_iff.mpr ⟨rfl, .inr ⟨'?', "b/c".toList, rfl, by decide, hend⟩⟩
  refine ⟨haddress.mpr ⟨"https", "a?b/c", .inr rfl, rfl, ?_⟩, by decide, ?_⟩
  · exact ⟨⟨'a', "?b/c".toList, rfl, by decide⟩, hsolid⟩
  · exact (hhost _ _ _ hleaves htail).1

end Extraction.Config
