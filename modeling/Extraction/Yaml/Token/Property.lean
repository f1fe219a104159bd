import Extraction.Success
import Extraction.Text.Hexadecimal
import Extraction.Yaml.Cursor
import Extraction.Yaml.Token.Basic

/-! # Directives, anchors and tags

The tokens that begin with a percent sign, an ampersand, an asterisk or an
exclamation mark. Addresses of tags may hold octets escaped with a percent
sign.
-/

namespace Extraction.Yaml

/-- Letters, digits, hyphens and underscores. -/
def isWordChar (c : Char) : Bool := c.isAlphanum || c == '-' || c == '_'

/-- The octet escaped as a percent sign and two hexadecimal digits. -/
def escapedOctet? : List Char → Option UInt8
  | '%' :: a :: b :: _ => do
    let high ← hexValue? a
    let low ← hexValue? b
    return (high * 0x10 + low).toUInt8
  | _ => none

/-- How many octets a character takes whose first one is given. -/
def octetCount? (b : UInt8) : Option Nat :=
  if b < 0x80 then some 1
  else if 0xC0 ≤ b && b < 0xE0 then some 2
  else if 0xE0 ≤ b && b < 0xF0 then some 3
  else if 0xF0 ≤ b && b < 0xF8 then some 4
  else none

/-- Reads so many escaped octets that are not the first of a character. -/
def trailingOctets (activity : Activity) (since : Mark) :
    Nat → Cursor → Except Fault (Octets × Cursor)
  | 0, c => .ok ([], c)
  | count + 1, c =>
    match escapedOctet? c.rest with
    | none => .error (c.fault .badEscapedOctet activity since)
    | some b =>
      if Octets.isTrailing b then
        (trailingOctets activity since count (c.skip 3)).map fun (octets, c) => (b :: octets, c)
      else .error (c.fault .badTrailingOctet activity since)

/-- Reads the escaped octets of one character. -/
def escapedChar (activity : Activity) (since : Mark) (c : Cursor) :
    Except Fault (Octets × Cursor) :=
  match escapedOctet? c.rest with
  | none => .error (c.fault .badEscapedOctet activity since)
  | some b =>
    match octetCount? b with
    | none => .error (c.fault .badLeadingOctet activity since)
    | some count =>
      (trailingOctets activity since (count - 1) (c.skip 3)).map fun (octets, c) =>
        (b :: octets, c)

/-- Whether a character may stand in the address of a tag; some only in a whole address. -/
def isAddressChar (whole : Bool) (c : Char) : Bool :=
  isWordChar c || ";/?:@&=+$.%!~*'()".toList.contains c || (whole && ",[]".toList.contains c)

theorem trailingOctets_size_le {activity : Activity} {since : Mark} {count : Nat}
    {c next : Cursor} {octets : Octets}
    (h : trailingOctets activity since count c = .ok (octets, next)) : next.size ≤ c.size := by
  induction count generalizing c octets with
  | zero => cases h; exact Nat.le_refl _
  | succ count ih =>
      simp only [trailingOctets] at h
      split at h
      next => cases h
      split at h
      next =>
        obtain ⟨⟨_, _⟩, hrest, heq⟩ := ok_of_map h
        cases heq
        exact Nat.le_trans (ih hrest) (c.size_skip_le 3)
      next => cases h

theorem escapedChar_size_lt {activity : Activity} {since : Mark} {c next : Cursor}
    {octets : Octets} (h : escapedChar activity since c = .ok (octets, next)) :
    next.size < c.size := by
  unfold escapedChar at h
  split at h
  next => cases h
  next hoctet =>
    split at h
    next => cases h
    next =>
      obtain ⟨⟨_, _⟩, hrest, heq⟩ := ok_of_map h
      cases heq
      refine Nat.lt_of_le_of_lt (trailingOctets_size_le hrest) ?_
      unfold escapedOctet? at hoctet
      split at hoctet
      next hc => exact Cursor.size_skip_lt hc 2
      next => cases hoctet

/-- Reads the characters of an address; `read` holds the octets so far, last first. -/
def addressFrom (whole : Bool) (activity : Activity) (since : Mark) (read : Octets) (c : Cursor) :
    Except Fault (Octets × Cursor) :=
  match _ : c.rest with
  | [] => .ok (read.reverse, c)
  | char :: _ =>
    if !isAddressChar whole char then .ok (read.reverse, c)
    else if char == '%' then
      match _ : escapedChar activity since c with
      | .error fault => .error fault
      | .ok (octets, next) => addressFrom whole activity since (octets.reverse ++ read) next
    else addressFrom whole activity since ((Octets.ofChar char).reverse ++ read) (c.skip 1)
termination_by c.size
decreasing_by
  · exact escapedChar_size_lt ‹_›
  · exact Cursor.size_skip_lt ‹_› 0

theorem addressFrom_size_le {whole : Bool} {activity : Activity} {since : Mark}
    {read octets : Octets} {c next : Cursor}
    (h : addressFrom whole activity since read c = .ok (octets, next)) : next.size ≤ c.size := by
  fun_induction addressFrom whole activity since read c with
  | case1 => cases h; exact Nat.le_refl _
  | case2 => cases h; exact Nat.le_refl _
  | case3 => cases h
  | case4 _ _ _ _ _ _ _ _ _ hescape ih =>
      exact Nat.le_trans (ih h) (Nat.le_of_lt (escapedChar_size_lt hescape))
  | case5 _ c _ _ _ _ _ ih => exact Nat.le_trans (ih h) (c.size_skip_le 1)

/-- Reads an address, which only what stands `before` it may leave empty. -/
def address (whole : Bool) (activity : Activity) (since : Mark) (before : List Char) (c : Cursor) :
    Except Fault (Octets × Cursor) :=
  match addressFrom whole activity since [] c with
  | .error fault => .error fault
  | .ok (octets, next) =>
    if before.isEmpty && octets.isEmpty then
      .error (next.fault .missingTagAddress activity since)
    else .ok (Octets.ofChars (before.drop 1) ++ octets, next)

theorem address_size_le {whole : Bool} {activity : Activity} {since : Mark} {before : List Char}
    {octets : Octets} {c next : Cursor}
    (h : address whole activity since before c = .ok (octets, next)) : next.size ≤ c.size := by
  unfold address at h
  split at h
  next => cases h
  next hread =>
    split at h
    next => cases h
    next => cases h; exact addressFrom_size_le hread

/-- Reads the handle of a tag: an exclamation mark, and maybe a word and another one. -/
def tagHandle (inDirective : Bool) (since : Mark) (c : Cursor) :
    Except Fault (List Char × Cursor) :=
  if !c.isAt '!' then
    .error (c.fault .missingMark (if inDirective then .tagDirectiveOpening else .tag) since)
  else
    let word := (c.skip 1).span isWordChar
    let next := (c.skip 1).skip word.length
    if next.isAt '!' then .ok ('!' :: word ++ ['!'], next.skip 1)
    else if inDirective && !word.isEmpty then
      .error (next.fault .missingMark .tagDirectiveHandle since)
    else .ok ('!' :: word, next)

theorem tagHandle_size_lt {inDirective : Bool} {since : Mark} {handle : List Char}
    {c next : Cursor} (h : tagHandle inDirective since c = .ok (handle, next)) :
    next.size < c.size := by
  unfold tagHandle at h
  split at h
  next => cases h
  next hmark =>
    have first : (c.skip 1).size < c.size := by
      cases hc : c.rest with
      | nil => simp [Cursor.isAt, hc] at hmark
      | cons char rest => exact Cursor.size_skip_lt hc 0
    have word := (c.skip 1).size_skip_le ((c.skip 1).span isWordChar).length
    simp only at h
    split at h
    next =>
      cases h
      exact Nat.lt_of_le_of_lt (Nat.le_trans (Cursor.size_skip_le _ 1) word) first
    split at h
    next => cases h
    next => cases h; exact Nat.lt_of_le_of_lt word first

/-- Reads the handle and the suffix of a tag that is not written as a whole address. -/
def shorthandTag (since : Mark) (c : Cursor) :
    Except Fault ((List Char × Octets) × Cursor) := do
  let (handle, c) ← tagHandle false since c
  if 1 < handle.length && handle.getLast? == some '!' then
    let (suffix, c) ← address false .tagAddress since [] c
    return ((handle, suffix), c)
  else
    let (suffix, c) ← address false .tagAddress since handle c
    return (if suffix.isEmpty then ([], Octets.ofChars ['!']) else (['!'], suffix), c)

/-- Reads a tag written as a whole address between angle brackets. -/
def wholeTag (since : Mark) (c : Cursor) : Except Fault ((List Char × Octets) × Cursor) := do
  let (suffix, c) ← address true .tagAddress since [] (c.skip 2)
  if c.isAt '>' then return (([], suffix), c.skip 1)
  else throw (c.fault .missingClosing .tag since)

/-- Reads the handle and the suffix of a tag, however it is written. -/
def tagParts (c : Cursor) : Except Fault ((List Char × Octets) × Cursor) :=
  if (c.skip 1).isAt '<' then wholeTag c.mark c else shorthandTag c.mark c

/-- Reads a tag. -/
def tagToken (inFlow : Bool) (c : Cursor) : Except Fault (Token × Cursor) := do
  let ((handle, suffix), next) ← tagParts c
  if (inFlow && next.isAt ',') || next.isBlankAhead 0 then
    return (⟨.tag handle suffix, c.mark⟩, next)
  else throw (next.fault .missingBlankOrBreak .tag c.mark)

theorem shorthandTag_size_lt {since : Mark} {tag : List Char × Octets} {c next : Cursor}
    (h : shorthandTag since c = .ok (tag, next)) : next.size < c.size := by
  obtain ⟨⟨handle, after⟩, hhandle, h⟩ := ok_of_bind h
  refine Nat.lt_of_le_of_lt ?_ (tagHandle_size_lt hhandle)
  simp only at h
  split at h
  next =>
    obtain ⟨⟨suffix, last⟩, hsuffix, h⟩ := ok_of_bind h
    cases h
    exact address_size_le hsuffix
  next =>
    obtain ⟨⟨suffix, last⟩, hsuffix, h⟩ := ok_of_bind h
    cases h
    exact address_size_le hsuffix

theorem wholeTag_size_le {since : Mark} {tag : List Char × Octets} {c next : Cursor}
    (h : wholeTag since c = .ok (tag, next)) : next.size ≤ (c.skip 2).size := by
  obtain ⟨⟨suffix, last⟩, hsuffix, h⟩ := ok_of_bind h
  simp only at h
  split at h
  next => cases h; exact Nat.le_trans (last.size_skip_le 1) (address_size_le hsuffix)
  next => cases h

theorem tagToken_size_lt {inFlow : Bool} {token : Token} {c next : Cursor} {char : Char}
    {rest : List Char} (hc : c.rest = char :: rest)
    (h : tagToken inFlow c = .ok (token, next)) : next.size < c.size := by
  obtain ⟨⟨tag, last⟩, htag, h⟩ := ok_of_bind h
  have read : last.size < c.size := by
    unfold tagParts at htag
    split at htag
    next => exact Nat.lt_of_le_of_lt (wholeTag_size_le htag) (Cursor.size_skip_lt hc 1)
    next => exact shorthandTag_size_lt htag
  simp only at h
  split at h
  next => cases h; exact read
  next => cases h

/-- Reads the name of an anchor or alias after its sign. -/
def anchorName (activity : Activity) (c : Cursor) : Except Fault (List Char × Cursor) :=
  let since := c.mark
  let name := (c.skip 1).span isWordChar
  let next := (c.skip 1).skip name.length
  let ended := next.isBlankAhead 0 || next.rest.head?.any "?:,]\x7d%@`".toList.contains
  if name.isEmpty || !ended then
    .error (next.fault .badAnchorName activity since)
  else .ok (name, next)

theorem anchorName_size_lt {activity : Activity} {name : List Char} {c next : Cursor}
    {char : Char} {rest : List Char} (hc : c.rest = char :: rest)
    (h : anchorName activity c = .ok (name, next)) : next.size < c.size := by
  unfold anchorName at h
  simp only at h
  split at h
  next => cases h
  next =>
    cases h
    exact Nat.lt_of_le_of_lt ((c.skip 1).size_skip_le _) (Cursor.size_skip_lt hc 0)

/-- Reads one number of a version. -/
def versionNumber (since : Mark) (c : Cursor) : Except Fault (Nat × Cursor) :=
  let digits := c.span Char.isDigit
  if digits.isEmpty then .error (c.fault .missingVersion .versionDirective since)
  else if 9 < digits.length then .error ((c.skip 9).fault .longVersion .versionDirective since)
  else
    .ok (digits.foldl (fun n d => n * 10 + (d.toNat - '0'.toNat)) 0, c.skip digits.length)

/-- Reads what follows the name of a version directive. -/
def versionDirective (since : Mark) (c : Cursor) : Except Fault (TokenKind × Cursor) := do
  let (major, c) ← versionNumber since (c.skipWhile isBlank)
  if !c.isAt '.' then throw (c.fault .badVersionSeparator .versionDirective since)
  let (minor, c) ← versionNumber since (c.skip 1)
  return (.versionDirective major minor, c)

/-- Reads what follows the name of a tag directive. -/
def tagDirective (since : Mark) (c : Cursor) : Except Fault (TokenKind × Cursor) := do
  let (handle, c) ← tagHandle true since (c.skipWhile isBlank)
  if !c.rest.head?.any isBlank then throw (c.fault .missingBlank .tagDirective since)
  let (expansion, c) ← address true .tagDirectiveAddress since [] (c.skipWhile isBlank)
  if !c.isBlankAhead 0 then throw (c.fault .missingBlankOrBreak .tagDirective since)
  return (.tagDirective handle expansion, c)

/-- Reads what follows the name of a directive. -/
def directiveKind (name : List Char) (since : Mark) (c : Cursor) :
    Except Fault (TokenKind × Cursor) :=
  if name = "YAML".toList then versionDirective since c
  else if name = "TAG".toList then tagDirective since c
  else .error (c.fault .unknownDirective .directive since)

/-- Reads a directive and the rest of its line. -/
def directiveToken (c : Cursor) : Except Fault (Token × Cursor) :=
  let name := (c.skip 1).span isWordChar
  let next := (c.skip 1).skip name.length
  if name.isEmpty then .error (next.fault .missingDirectiveName .directive c.mark)
  else if !next.isBlankAhead 0 then .error (next.fault .badDirectiveName .directive c.mark)
  else do
    let (kind, next) ← directiveKind name c.mark next
    let next ← next.leaveLine .directiveTail .directive c.mark
    return (⟨kind, c.mark⟩, next)

theorem versionNumber_size_le {since : Mark} {number : Nat} {c next : Cursor}
    (h : versionNumber since c = .ok (number, next)) : next.size ≤ c.size := by
  unfold versionNumber at h
  simp only at h
  split at h
  next => cases h
  split at h
  next => cases h
  next => cases h; exact c.size_skip_le _

theorem versionDirective_size_le {since : Mark} {kind : TokenKind} {c next : Cursor}
    (h : versionDirective since c = .ok (kind, next)) : next.size ≤ c.size := by
  obtain ⟨⟨major, middle⟩, hmajor, h⟩ := ok_of_bind h
  simp only at h
  split at h
  next => cases h
  next =>
    obtain ⟨⟨minor, last⟩, hminor, h⟩ := ok_of_bind h
    cases h
    exact Nat.le_trans (versionNumber_size_le hminor) (Nat.le_trans (middle.size_skip_le 1)
      (Nat.le_trans (versionNumber_size_le hmajor) (c.size_skip_le _)))

theorem tagDirective_size_le {since : Mark} {kind : TokenKind} {c next : Cursor}
    (h : tagDirective since c = .ok (kind, next)) : next.size ≤ c.size := by
  obtain ⟨⟨handle, middle⟩, hhandle, h⟩ := ok_of_bind h
  simp only at h
  split at h
  next => cases h
  next =>
    obtain ⟨⟨expansion, last⟩, haddress, h⟩ := ok_of_bind h
    simp only at h
    split at h
    next => cases h
    next =>
      cases h
      exact Nat.le_trans (address_size_le haddress) (Nat.le_trans (middle.size_skip_le _)
        (Nat.le_trans (Nat.le_of_lt (tagHandle_size_lt hhandle)) (c.size_skip_le _)))

theorem directiveKind_size_le {name : List Char} {since : Mark} {kind : TokenKind}
    {c next : Cursor} (h : directiveKind name since c = .ok (kind, next)) :
    next.size ≤ c.size := by
  unfold directiveKind at h
  split at h
  next => exact versionDirective_size_le h
  split at h
  next => exact tagDirective_size_le h
  next => cases h

theorem directiveToken_size_lt {token : Token} {c next : Cursor} {char : Char}
    {rest : List Char} (hc : c.rest = char :: rest)
    (h : directiveToken c = .ok (token, next)) : next.size < c.size := by
  unfold directiveToken at h
  simp only at h
  split at h
  next => cases h
  split at h
  next => cases h
  next =>
    obtain ⟨⟨kind, middle⟩, hkind, h⟩ := ok_of_bind h
    obtain ⟨last, hlast, h⟩ := ok_of_bind h
    cases h
    exact Nat.lt_of_le_of_lt
      (Nat.le_trans (Cursor.size_leaveLine_le hlast)
        (Nat.le_trans (directiveKind_size_le hkind) (Cursor.size_skip_le _ _)))
      (Cursor.size_skip_lt hc 0)

end Extraction.Yaml
