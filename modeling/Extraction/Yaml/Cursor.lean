import Extraction.Yaml.Characters
import Extraction.Yaml.Fault

/-! # Cursors

A cursor is what is left of a text together with the place it begins at.
-/

namespace Extraction.Yaml

/-- What is left of a text, and where it begins. -/
structure Cursor where
  rest : List Char
  mark : Mark
deriving DecidableEq, Repr

namespace Cursor

def ofText (s : List Char) : Cursor := ⟨s, {}⟩

/-- Past some characters, none of which ends a line. -/
def skip (c : Cursor) (count : Nat) : Cursor := ⟨c.rest.drop count, c.mark.right count⟩

/-- The characters in front for which `p` holds. -/
def span (c : Cursor) (p : Char → Bool) : List Char := c.rest.takeWhile p

/-- Past the characters in front for which `p` holds, none of which ends a line. -/
def skipWhile (c : Cursor) (p : Char → Bool) : Cursor := c.skip (c.span p).length

/-- Whether a character is next. -/
def isAt (c : Cursor) (char : Char) : Bool := c.rest.head? == some char

/-- Whether a blank, a line end or the end of the text is so many characters ahead. -/
def isBlankAhead (c : Cursor) (count : Nat) : Bool := beginsBlank (c.rest.drop count)

/-- Whether the line ends here. -/
def isLineEnd (c : Cursor) : Bool := c.rest.head?.all isBreak

/-- The characters of the line end in front, and the character it stands for in a scalar. Only
the line and paragraph separators stand for themselves. -/
def lineEnd? (c : Cursor) : Option (Nat × Char) :=
  match c.rest with
  | '\r' :: '\n' :: _ => some (2, '\n')
  | char :: _ =>
    if !isBreak char then none
    else if char == '\u2028' || char == '\u2029' then some (1, char)
    else some (1, '\n')
  | [] => none

/-- Past a line end of some characters. -/
def nextLine (c : Cursor) (count : Nat) : Cursor := ⟨c.rest.drop count, c.mark.nextLine count⟩

/-- Past the line end in front, if there is one. -/
def skipLineEnd (c : Cursor) : Cursor :=
  match c.lineEnd? with
  | some (count, _) => c.nextLine count
  | none => c

/-- Past a comment in front, up to the line end. -/
def skipComment (c : Cursor) : Cursor := if c.isAt '#' then c.skipWhile (!isBreak ·) else c

/-- Whether a line begins here with the mark of a document's start or end. -/
def isAtDocumentMark (c : Cursor) : Bool :=
  c.mark.column == 0 && (c.rest.take 3 == ['-', '-', '-'] || c.rest.take 3 == ['.', '.', '.']) &&
    c.isBlankAhead 3

/-- How many characters are left. -/
def size (c : Cursor) : Nat := c.rest.length

/-- A problem at this place. -/
def fault (c : Cursor) (problem : Problem) (activity : Activity) (since : Mark) : Fault :=
  ⟨problem, c.mark, some (activity, since)⟩

/-- Past the rest of a line, on which nothing but blanks and a comment may be left. -/
def leaveLine (c : Cursor) (problem : Problem) (activity : Activity) (since : Mark) :
    Except Fault Cursor :=
  let last := (c.skipWhile isBlank).skipComment
  if last.isLineEnd then .ok last.skipLineEnd else .error (last.fault problem activity since)

theorem size_skip_le (c : Cursor) (count : Nat) : (c.skip count).size ≤ c.size :=
  (List.drop_sublist count c.rest).length_le

theorem size_nextLine_le (c : Cursor) (count : Nat) : (c.nextLine count).size ≤ c.size :=
  (List.drop_sublist count c.rest).length_le

theorem size_skip_lt {c : Cursor} {char : Char} {rest : List Char} (h : c.rest = char :: rest)
    (count : Nat) : (c.skip (count + 1)).size < c.size := by
  simp only [size, skip, h, List.drop_succ_cons, List.length_cons]
  exact Nat.lt_succ_of_le (List.drop_sublist count rest).length_le

/-- Past a line end fewer characters are left. -/
theorem size_nextLine_lt {c : Cursor} {count : Nat} {char : Char}
    (h : c.lineEnd? = some (count, char)) : (c.nextLine count).size < c.size := by
  unfold lineEnd? at h
  split at h
  next rest hrest =>
    cases h
    simp only [size, nextLine, hrest, List.drop_succ_cons, List.drop_zero, List.length_cons]
    omega
  next first rest _ hrest =>
    have shorter : (c.nextLine 1).size < c.size := by simp [size, nextLine, hrest]
    split at h
    next => cases h
    split at h
    next => cases h; exact shorter
    next => cases h; exact shorter
  next => cases h

theorem size_skipLineEnd_le (c : Cursor) : c.skipLineEnd.size ≤ c.size := by
  unfold skipLineEnd
  split
  next => exact size_nextLine_le c _
  next => exact Nat.le_refl _

theorem size_skipComment_le (c : Cursor) : c.skipComment.size ≤ c.size := by
  unfold skipComment
  split
  next => exact size_skip_le c _
  next => exact Nat.le_refl _

theorem size_leaveLine_le {problem : Problem} {activity : Activity} {since : Mark}
    {c next : Cursor} (h : c.leaveLine problem activity since = .ok next) :
    next.size ≤ c.size := by
  unfold leaveLine at h
  simp only at h
  split at h
  next =>
    cases h
    exact Nat.le_trans (size_skipLineEnd_le _)
      (Nat.le_trans (size_skipComment_le _) (c.size_skip_le _))
  next => cases h

/-- A line end in front is skipped. -/
theorem size_skipLineEnd_lt {c : Cursor} {char : Char} {rest : List Char}
    (h : c.rest = char :: rest) (hbreak : isBreak char = true) :
    c.skipLineEnd.size < c.size := by
  unfold skipLineEnd
  split
  next hline => exact size_nextLine_lt hline
  next hline =>
    unfold lineEnd? at hline
    split at hline
    next => cases hline
    next first _ _ hrest =>
      rw [h] at hrest
      cases hrest
      rw [hbreak] at hline
      simp only [Bool.not_true, Bool.false_eq_true, ite_false] at hline
      split at hline <;> cases hline
    next hrest => rw [h] at hrest; cases hrest

/-- A line and its end are not both empty where characters are left. -/
theorem size_pastLine_lt {c : Cursor} {char : Char} {rest : List Char}
    (h : c.rest = char :: rest) : (c.skipWhile (!isBreak ·)).skipLineEnd.size < c.size := by
  by_cases hbreak : isBreak char = true
  · have here : c.skipWhile (!isBreak ·) = c.skip 0 := by
      simp [skipWhile, span, h, hbreak]
    rw [here]
    exact size_skipLineEnd_lt (c := c.skip 0) h hbreak
  · refine Nat.lt_of_le_of_lt (size_skipLineEnd_le _) ?_
    have line : (c.span (!isBreak ·)).length = (rest.takeWhile (!isBreak ·)).length + 1 := by
      simp [span, h, hbreak]
    rw [skipWhile, line]
    exact size_skip_lt h _

end Cursor

end Extraction.Yaml
