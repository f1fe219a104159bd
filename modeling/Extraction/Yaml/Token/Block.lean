import Extraction.Yaml.Token.Property

/-! # Block scalars

The lines of a block scalar are indented alike. A literal block keeps its line
ends; a folded one joins lines that neither are empty nor begin with a blank.
The header tells whether line ends at the end are dropped, kept, or all but
the first dropped.
-/

namespace Extraction.Yaml

/-- What happens to the line ends at the end of a block scalar. -/
inductive Chomping
  | strip
  | clip
  | keep
deriving DecidableEq, Repr

/-- The header of a block scalar. -/
structure BlockHeader where
  chomping : Chomping := .clip
  increment : Option Nat := none

/-- Reads the sign that tells the chomping. -/
def chompingSign (header : BlockHeader) (c : Cursor) : BlockHeader × Cursor :=
  if c.isAt '+' then ({ header with chomping := .keep }, c.skip 1)
  else if c.isAt '-' then ({ header with chomping := .strip }, c.skip 1)
  else (header, c)

/-- Reads the digit that tells the indentation. -/
def indentationDigit (since : Mark) (header : BlockHeader) (c : Cursor) :
    Except Fault (BlockHeader × Cursor) :=
  match c.rest.head? with
  | some digit =>
    if digit = '0' then .error (c.fault .zeroIndentation .blockScalar since)
    else if digit.isDigit then
      .ok ({ header with increment := some (digit.toNat - '0'.toNat) }, c.skip 1)
    else .ok (header, c)
  | none => .ok (header, c)

/-- Reads sign and digit, which may stand in either order. -/
def blockHeader (since : Mark) (c : Cursor) : Except Fault (BlockHeader × Cursor) :=
  let (header, next) := chompingSign {} c
  if header.chomping = .clip then
    (indentationDigit since header next).map fun (header, next) =>
      if header.increment.isSome then chompingSign header next else (header, next)
  else indentationDigit since header next

theorem chompingSign_size_le (header : BlockHeader) (c : Cursor) :
    (chompingSign header c).2.size ≤ c.size := by
  unfold chompingSign
  split
  next => exact c.size_skip_le 1
  split
  next => exact c.size_skip_le 1
  next => exact Nat.le_refl _

theorem indentationDigit_size_le {since : Mark} {header read : BlockHeader} {c next : Cursor}
    (h : indentationDigit since header c = .ok (read, next)) : next.size ≤ c.size := by
  unfold indentationDigit at h
  split at h
  next =>
    split at h
    next => cases h
    split at h
    next => cases h; exact c.size_skip_le 1
    next => cases h; exact Nat.le_refl _
  next => cases h; exact Nat.le_refl _

theorem blockHeader_size_le {since : Mark} {header : BlockHeader} {c next : Cursor}
    (h : blockHeader since c = .ok (header, next)) : next.size ≤ c.size := by
  have sign := chompingSign_size_le {} c
  unfold blockHeader at h
  simp only at h
  split at h
  next =>
    obtain ⟨⟨read, last⟩, hdigit, heq⟩ := ok_of_map h
    have digit := Nat.le_trans (indentationDigit_size_le hdigit) sign
    simp only at heq
    split at heq
    next =>
      have later := chompingSign_size_le read last
      rw [heq] at later
      exact Nat.le_trans later digit
    next => cases heq; exact digit
  next => exact Nat.le_trans (indentationDigit_size_le h) sign

/-- Past the spaces of a line's indentation, which is unlimited while it is not known. -/
def skipIndentation (indent : Option Nat) (c : Cursor) : Cursor :=
  let width := (c.span (· == ' ')).length
  c.skip (match indent with
    | none => width
    | some indent => min width (indent - c.mark.column))

/-- The empty lines before a line of a block scalar. -/
structure EmptyLines where
  /-- The line ends, last first. -/
  breaks : List Char := []
  /-- The greatest indentation seen. -/
  widest : Nat := 0

theorem skipIndentation_size_le (indent : Option Nat) (c : Cursor) :
    (skipIndentation indent c).size ≤ c.size :=
  c.size_skip_le _

/-- Reads empty lines and the indentation of the line after them. -/
def emptyLines (since : Mark) (indent : Option Nat) (read : EmptyLines) (c : Cursor) :
    Except Fault (EmptyLines × Cursor) :=
  let start := skipIndentation indent c
  let read := { read with widest := max read.widest start.mark.column }
  if start.isAt '\t' && indent.all (start.mark.column < ·) then
    .error (start.fault .tabInIndentation .blockScalar since)
  else
    match _ : start.lineEnd? with
    | none => .ok (read, start)
    | some (count, char) =>
      emptyLines since indent { read with breaks := char :: read.breaks } (start.nextLine count)
termination_by c.size
decreasing_by
  exact Nat.lt_of_lt_of_le (Cursor.size_nextLine_lt ‹_›) (skipIndentation_size_le indent c)

theorem emptyLines_size_le {since : Mark} {indent : Option Nat} {read lines : EmptyLines}
    {c next : Cursor} (h : emptyLines since indent read c = .ok (lines, next)) :
    next.size ≤ c.size := by
  fun_induction emptyLines since indent read c with
  | case1 => cases h
  | case2 _ c =>
      simp only [Except.ok.injEq, Prod.mk.injEq] at h
      exact h.2 ▸ skipIndentation_size_le indent c
  | case3 _ c _ _ _ _ _ _ ih =>
      exact Nat.le_trans (ih h)
        (Nat.le_trans (Cursor.size_nextLine_le _ _) (skipIndentation_size_le indent c))

/-- The lines of a block scalar read so far. -/
structure BlockLines where
  /-- The text, last character first. -/
  text : List Char := []
  /-- The end of the last line. -/
  lastBreak : Option Char := none
  /-- The ends of the empty lines after it, last first. -/
  breaks : List Char
  /-- Whether the last line began with a blank. -/
  afterBlank : Bool := false

/-- The text and the line ends after it. -/
def BlockLines.withBreaks (b : BlockLines) : List Char := b.breaks ++ (b.lastBreak.toList ++ b.text)

/-- The text when another line follows; `beginsBlank` tells whether it begins with a blank. -/
def BlockLines.joined (b : BlockLines) (style : Style) (beginsBlank : Bool) : List Char :=
  if style = .folded && b.lastBreak == some '\n' && !b.afterBlank && !beginsBlank then
    if b.breaks.isEmpty then ' ' :: b.text else b.breaks ++ b.text
  else b.withBreaks

/-- Reads the lines of a block scalar that are indented by `indent`. -/
def blockLines (style : Style) (since : Mark) (indent : Nat) (b : BlockLines) (c : Cursor) :
    Except Fault (BlockLines × Cursor) :=
  match _ : c.rest with
  | [] => .ok (b, c)
  | char :: _ =>
    if c.mark.column != indent then .ok (b, c)
    else
      let lineEnd := c.skipWhile (!isBreak ·)
      match _ : emptyLines since (some indent) {} lineEnd.skipLineEnd with
      | .error fault => .error fault
      | .ok (lines, next) =>
        let read : BlockLines :=
          { text := (c.span (!isBreak ·)).reverse ++ b.joined style (isBlank char)
            lastBreak := lineEnd.lineEnd?.map (·.2)
            breaks := lines.breaks
            afterBlank := isBlank char }
        blockLines style since indent read next
termination_by c.size
decreasing_by
  exact Nat.lt_of_le_of_lt (emptyLines_size_le ‹_›) (Cursor.size_pastLine_lt ‹_›)

theorem blockLines_size_le {style : Style} {since : Mark} {indent : Nat} {b read : BlockLines}
    {c next : Cursor} (h : blockLines style since indent b c = .ok (read, next)) :
    next.size ≤ c.size := by
  fun_induction blockLines style since indent b c with
  | case1 => cases h; exact Nat.le_refl _
  | case2 => cases h; exact Nat.le_refl _
  | case3 => cases h
  | case4 _ c _ _ hc _ _ _ _ hlines _ ih =>
      exact Nat.le_trans (ih h) (Nat.le_trans (emptyLines_size_le hlines)
        (Nat.le_of_lt (Cursor.size_pastLine_lt hc)))

/-- The text of a block scalar. -/
def BlockLines.finished (b : BlockLines) (chomping : Chomping) : List Char :=
  match chomping with
  | .strip => b.text.reverse
  | .clip => (b.lastBreak.toList ++ b.text).reverse
  | .keep => b.withBreaks.reverse

/-- Reads a block scalar inside a collection indented by `outer`. Its indentation is told in the
header, or else it is that of the first line that is not empty, if that is deep enough. -/
def blockToken (style : Style) (outer : Int) (c : Cursor) : Except Fault (Token × Cursor) := do
  let (header, next) ← blockHeader c.mark (c.skip 1)
  let next ← next.leaveLine .blockHeaderTail .blockScalar c.mark
  let known := header.increment.map fun increment => (max outer 0).toNat + increment
  let (lines, next) ← emptyLines c.mark known {} next
  let indent := known.getD (max lines.widest (max (outer + 1).toNat 1))
  let (b, next) ← blockLines style c.mark indent { breaks := lines.breaks } next
  return (⟨.scalar (b.finished header.chomping) style, c.mark⟩, next)

theorem blockToken_size_lt {style : Style} {outer : Int} {token : Token} {c next : Cursor}
    {char : Char} {rest : List Char} (hc : c.rest = char :: rest)
    (h : blockToken style outer c = .ok (token, next)) : next.size < c.size := by
  obtain ⟨⟨header, afterHeader⟩, hheader, h⟩ := ok_of_bind h
  obtain ⟨start, hline, h⟩ := ok_of_bind h
  obtain ⟨⟨lines, first⟩, hempty, h⟩ := ok_of_bind h
  obtain ⟨⟨b, last⟩, hlines, h⟩ := ok_of_bind h
  cases h
  exact Nat.lt_of_le_of_lt
    (Nat.le_trans (blockLines_size_le hlines) (Nat.le_trans (emptyLines_size_le hempty)
      (Nat.le_trans (Cursor.size_leaveLine_le hline) (blockHeader_size_le hheader))))
    (Cursor.size_skip_lt hc 0)

end Extraction.Yaml
