/-! # Folding lines

In plain and quoted scalars a single line end counts as a space, and of several
line ends the first one does not count. Blanks around line ends do not count
either. So what blanks mean is settled only when something follows them.
-/

namespace Extraction.Yaml

/-- A scalar while it is read. All lists hold the last character first. -/
structure Folding where
  text : List Char := []
  /-- Blanks after the text. -/
  blanks : List Char := []
  /-- Whether a line has ended after the text. -/
  newLine : Bool := false
  /-- The first line end after the text, unless it was escaped. -/
  firstBreak : Option Char := none
  /-- The other line ends after the text. -/
  moreBreaks : List Char := []

namespace Folding

/-- Whether blanks or line ends stand after the text. -/
def isPending (f : Folding) : Bool := f.newLine || !f.blanks.isEmpty

/-- The text and what the blanks and line ends after it mean. -/
def settled (f : Folding) : List Char :=
  if f.newLine then
    match f.firstBreak with
    | none => f.moreBreaks ++ f.text
    | some c =>
      if c != '\n' then f.moreBreaks ++ c :: f.text
      else if f.moreBreaks.isEmpty then ' ' :: f.text
      else f.moreBreaks ++ f.text
  else f.blanks ++ f.text

/-- The text goes on with a character. -/
def addChar (f : Folding) (c : Char) : Folding := { text := c :: f.settled }

/-- A blank; after a line end it does not count. -/
def addBlank (f : Folding) (c : Char) : Folding :=
  if f.newLine then f else { f with blanks := c :: f.blanks }

/-- A line end; the blanks before it do not count. -/
def addBreak (f : Folding) (c : Char) : Folding :=
  if f.newLine then { f with moreBreaks := c :: f.moreBreaks }
  else { f with blanks := [], newLine := true, firstBreak := some c }

/-- A line end that does not count. -/
def addEscapedBreak (f : Folding) : Folding := { text := f.settled, newLine := true }

end Folding

end Extraction.Yaml
