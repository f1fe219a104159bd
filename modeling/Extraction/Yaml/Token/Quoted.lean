import Extraction.Yaml.Token.Folding
import Extraction.Yaml.Token.Property

/-! # Quoted scalars

Between single quotation marks only the mark itself is special: two of them
stand for one. Between double ones a backslash begins an escape.
-/

namespace Extraction.Yaml

/-- The character an escape of one letter stands for. -/
def letterEscape? (c : Char) : Option Char :=
  if c = '0' then some '\x00'
  else if c = 'a' then some '\x07'
  else if c = 'b' then some '\x08'
  else if c = 't' ∨ c = '\t' then some '\t'
  else if c = 'n' then some '\n'
  else if c = 'v' then some '\x0b'
  else if c = 'f' then some '\x0c'
  else if c = 'r' then some '\r'
  else if c = 'e' then some '\x1b'
  else if c = ' ' ∨ c = '"' ∨ c = '/' ∨ c = '\\' then some c
  else if c = 'N' then some '\u0085'
  else if c = '_' then some '\u00a0'
  else if c = 'L' then some '\u2028'
  else if c = 'P' then some '\u2029'
  else none

/-- How many hexadecimal digits follow the letter of an escape. -/
def hexEscapeLength? (c : Char) : Option Nat :=
  if c = 'x' then some 2 else if c = 'u' then some 4 else if c = 'U' then some 8 else none

/-- The number written in exactly so many hexadecimal digits at the front of a text. -/
def hexNumber? (count : Nat) (s : List Char) : Option Nat :=
  let digits := s.take count
  if digits.length = count then
    digits.foldlM (fun n c => (hexValue? c).map (n * 0x10 + ·)) 0
  else none

/-- Reads the digits of an escape. -/
def escapedNumber (since : Mark) (count : Nat) (c : Cursor) : Except Fault (Char × Cursor) :=
  match hexNumber? count c.rest with
  | none => .error (c.fault .missingHexDigits .quotedEscape since)
  | some n =>
    if n.isValidChar then .ok (Char.ofNat n, c.skip count)
    else .error (c.fault .badCodePoint .quotedEscape since)

/-- Reads an escape from its backslash on. -/
def escape (since : Mark) (c : Cursor) : Except Fault (Char × Cursor) :=
  match c.rest with
  | _ :: letter :: _ =>
    match letterEscape? letter, hexEscapeLength? letter with
    | some char, _ => .ok (char, c.skip 2)
    | none, some count => escapedNumber since count (c.skip 2)
    | none, none => .error (c.fault .unknownEscape .quotedEscape since)
  | _ => .error (c.fault .unknownEscape .quotedEscape since)

/-- One step inside a quoted scalar: its end, or what is taken in. -/
inductive QuotedStep
  | done (text : List Char) (c : Cursor)
  | more (f : Folding) (c : Cursor)

/-- Takes in a character, an escape, or a line end. -/
def quotedStep (mark : Char) (since : Mark) (f : Folding) (c : Cursor) :
    Except Fault QuotedStep :=
  match c.rest with
  | [] => .error (c.fault .endInScalar .quotedScalar since)
  | char :: rest =>
    if c.isAtDocumentMark then .error (c.fault .documentMarkInScalar .quotedScalar since)
    else if isBlank char then .ok (.more (f.addBlank char) (c.skip 1))
    else
      match c.lineEnd? with
      | some (count, char) => .ok (.more (f.addBreak char) (c.nextLine count))
      | none =>
        if char = mark then
          if mark = '\'' && rest.head? == some mark then .ok (.more (f.addChar char) (c.skip 2))
          else .ok (.done f.settled.reverse (c.skip 1))
        else if char = '\\' && mark = '"' then
          match (c.skip 1).lineEnd? with
          | some (count, _) => .ok (.more f.addEscapedBreak ((c.skip 1).nextLine count))
          | none => (escape since c).map fun (char, c) => .more (f.addChar char) c
        else .ok (.more (f.addChar char) (c.skip 1))

theorem escapedNumber_size_le {since : Mark} {count : Nat} {char : Char} {c next : Cursor}
    (h : escapedNumber since count c = .ok (char, next)) : next.size ≤ c.size := by
  unfold escapedNumber at h
  split at h
  next => cases h
  split at h
  next => cases h; exact c.size_skip_le _
  next => cases h

theorem escape_size_lt {since : Mark} {char : Char} {c next : Cursor}
    (h : escape since c = .ok (char, next)) : next.size < c.size := by
  unfold escape at h
  split at h
  next hc =>
    have opened := Cursor.size_skip_lt hc 1
    split at h
    next => cases h; exact opened
    next => exact Nat.lt_of_le_of_lt (escapedNumber_size_le h) opened
    next => cases h
  next => cases h

theorem quotedStep_size_lt {mark : Char} {since : Mark} {f more : Folding} {c next : Cursor}
    (h : quotedStep mark since f c = .ok (.more more next)) : next.size < c.size := by
  unfold quotedStep at h
  split at h
  next => cases h
  next hc =>
    split at h
    next => cases h
    split at h
    next => cases h; exact Cursor.size_skip_lt hc 0
    split at h
    next hline => cases h; exact Cursor.size_nextLine_lt hline
    next =>
      split at h
      next =>
        split at h
        next => cases h; exact Cursor.size_skip_lt hc 1
        next => cases h
      split at h
      next =>
        split at h
        next =>
          cases h
          exact Nat.lt_of_le_of_lt (Cursor.size_nextLine_le _ _) (Cursor.size_skip_lt hc 0)
        next =>
          obtain ⟨⟨_, _⟩, hescape, heq⟩ := ok_of_map h
          cases heq
          exact escape_size_lt hescape
      next => cases h; exact Cursor.size_skip_lt hc 0

theorem quotedStep_done_size_le {mark : Char} {since : Mark} {f : Folding} {text : List Char}
    {c next : Cursor} (h : quotedStep mark since f c = .ok (.done text next)) :
    next.size ≤ c.size := by
  unfold quotedStep at h
  split at h
  next => cases h
  split at h
  next => cases h
  split at h
  next => cases h
  split at h
  next => cases h
  split at h
  next =>
    split at h
    next => cases h
    next => cases h; exact c.size_skip_le 1
  split at h
  next =>
    split at h
    next => cases h
    next =>
      obtain ⟨_, _, heq⟩ := ok_of_map h
      cases heq
  next => cases h

/-- Reads a quoted scalar after its opening mark. -/
def quotedFrom (mark : Char) (since : Mark) (f : Folding) (c : Cursor) :
    Except Fault (List Char × Cursor) :=
  match _ : quotedStep mark since f c with
  | .error fault => .error fault
  | .ok (.done text next) => .ok (text, next)
  | .ok (.more f next) => quotedFrom mark since f next
termination_by c.size
decreasing_by exact quotedStep_size_lt ‹_›

theorem quotedFrom_size_le {mark : Char} {since : Mark} {f : Folding} {text : List Char}
    {c next : Cursor} (h : quotedFrom mark since f c = .ok (text, next)) :
    next.size ≤ c.size := by
  fun_induction quotedFrom mark since f c with
  | case1 => cases h
  | case2 _ _ _ _ hstep => cases h; exact quotedStep_done_size_le hstep
  | case3 _ _ _ _ hstep ih => exact Nat.le_trans (ih h) (Nat.le_of_lt (quotedStep_size_lt hstep))

/-- Reads a scalar between single or double quotation marks. -/
def quotedToken (style : Style) (c : Cursor) : Except Fault (Token × Cursor) :=
  let mark := if style = .single then '\'' else '"'
  (quotedFrom mark c.mark {} (c.skip 1)).map fun (text, next) =>
    (⟨.scalar text style, c.mark⟩, next)

theorem quotedToken_size_lt {style : Style} {token : Token} {c next : Cursor} {char : Char}
    {rest : List Char} (hc : c.rest = char :: rest)
    (h : quotedToken style c = .ok (token, next)) : next.size < c.size := by
  obtain ⟨⟨_, _⟩, hread, heq⟩ := ok_of_map h
  cases heq
  exact Nat.lt_of_le_of_lt (quotedFrom_size_le hread) (Cursor.size_skip_lt hc 0)

end Extraction.Yaml
