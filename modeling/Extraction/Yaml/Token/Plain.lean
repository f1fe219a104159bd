import Extraction.Yaml.Token.Folding
import Extraction.Yaml.Token.Property

/-! # Plain scalars

A plain scalar goes on until something begins that cannot be part of it: a
comment, a colon before a blank, a line that is indented too little, the mark
of a document, or an indicator inside a flow collection.
-/

namespace Extraction.Yaml

/-- Where a plain scalar stands: inside a flow collection or not, and how far its further lines
are indented at least. -/
structure PlainContext where
  inFlow : Bool
  indent : Int
  since : Mark

/-- Whether the scalar has ended before the character after its blanks and line ends. -/
def PlainContext.hasEnded (context : PlainContext) (f : Folding) (c : Cursor) : Bool :=
  f.isPending &&
    ((!context.inFlow && decide ((c.mark.column : Int) < context.indent)) || c.isAtDocumentMark ||
      c.isAt '#')

/-- Whether a character that is no blank and no line end cannot be part of the scalar. -/
def PlainContext.endsAt (context : PlainContext) (c : Cursor) : Bool :=
  (c.isAt ':' && c.isBlankAhead 1) ||
    (context.inFlow && c.rest.head?.any ",[]\x7b\x7d".toList.contains)

/-- Whether a colon stands where a scalar inside a flow collection cannot have one. -/
def PlainContext.hasBadColon (context : PlainContext) (c : Cursor) : Bool :=
  context.inFlow && c.isAt ':' && (c.rest.drop 1).head?.any ",?[]\x7b\x7d".toList.contains

/-- Reads the rest of a plain scalar; blanks and line ends after it are taken in but do not
count. -/
def plainFrom (context : PlainContext) (f : Folding) (c : Cursor) :
    Except Fault (Folding × Cursor) :=
  match _ : c.rest with
  | [] => .ok (f, c)
  | char :: _ =>
    if isBlank char then
      if f.newLine && char == '\t' && decide ((c.mark.column : Int) < context.indent) then
        .error (c.fault .tabBeforeContent .plainScalar context.since)
      else plainFrom context (f.addBlank char) (c.skip 1)
    else
      match _ : c.lineEnd? with
      | some (count, char) => plainFrom context (f.addBreak char) (c.nextLine count)
      | none =>
        if context.hasEnded f c then .ok (f, c)
        else if context.hasBadColon c then
          .error (c.fault .colonInFlow .plainScalar context.since)
        else if context.endsAt c then .ok (f, c)
        else plainFrom context (f.addChar char) (c.skip 1)
termination_by c.size
decreasing_by
  · exact Cursor.size_skip_lt ‹_› 0
  · exact Cursor.size_nextLine_lt ‹_›
  · exact Cursor.size_skip_lt ‹_› 0

theorem plainFrom_size_le {context : PlainContext} {f read : Folding} {c next : Cursor}
    (h : plainFrom context f c = .ok (read, next)) : next.size ≤ c.size := by
  fun_induction plainFrom context f c with
  | case1 => cases h; exact Nat.le_refl _
  | case2 => cases h
  | case3 _ c _ _ _ _ _ ih => exact Nat.le_trans (ih h) (c.size_skip_le 1)
  | case4 _ c _ _ _ _ count _ _ ih => exact Nat.le_trans (ih h) (c.size_nextLine_le count)
  | case5 => cases h; exact Nat.le_refl _
  | case6 => cases h
  | case7 => cases h; exact Nat.le_refl _
  | case8 _ c _ _ _ _ _ _ _ _ ih => exact Nat.le_trans (ih h) (c.size_skip_le 1)

/-- Reads a plain scalar that begins with `char`, and tells whether a line ended after it. -/
def plainToken (inFlow : Bool) (indent : Int) (char : Char) (c : Cursor) :
    Except Fault ((Token × Bool) × Cursor) :=
  (plainFrom ⟨inFlow, indent, c.mark⟩ { text := [char] } (c.skip 1)).map fun (f, next) =>
    ((⟨.scalar f.text.reverse .plain, c.mark⟩, f.newLine), next)

theorem plainToken_size_lt {inFlow : Bool} {indent : Int} {token : Token × Bool}
    {c next : Cursor} {char : Char} {rest : List Char} (hc : c.rest = char :: rest)
    (h : plainToken inFlow indent char c = .ok (token, next)) : next.size < c.size := by
  obtain ⟨⟨_, _⟩, hread, heq⟩ := ok_of_map h
  cases heq
  exact Nat.lt_of_le_of_lt (plainFrom_size_le hread) (Cursor.size_skip_lt hc 0)

end Extraction.Yaml
