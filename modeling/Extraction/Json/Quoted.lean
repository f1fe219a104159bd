import Extraction.Json.Failure
import Extraction.Text.Hexadecimal

/-! # JSON strings

`quote` writes a text between quotation marks; only the quotation mark, the
backslash and control characters are escaped. `unquote` reads what follows an
opening mark, in any spelling JSON allows: characters may be escaped that need
not be, and one outside the first plane may be written as two surrogates.
-/

namespace Extraction.Json

/-- A character as it stands inside quotation marks. -/
def quoteChar (c : Char) : List Char :=
  if c = '"' then ['\\', '"']
  else if c = '\\' then ['\\', '\\']
  else if c.toNat < 0x20 then
    if c.toNat = 0x08 then ['\\', 'b']
    else if c.toNat = 0x09 then ['\\', 't']
    else if c.toNat = 0x0A then ['\\', 'n']
    else if c.toNat = 0x0C then ['\\', 'f']
    else if c.toNat = 0x0D then ['\\', 'r']
    else ['\\', 'u', '0', '0', hexDigit (c.toNat / 0x10), hexDigit (c.toNat % 0x10)]
  else [c]

/-- The characters of a text as they stand inside quotation marks. -/
def quoteBody (s : List Char) : List Char := s.flatMap quoteChar

/-- A text between quotation marks. -/
def quote (s : String) : List Char := '"' :: (quoteBody s.toList ++ ['"'])

/-- The value of four hexadecimal digits. -/
def hexGroup? (a b c d : Char) : Option Nat := do
  let a ← hexValue? a
  let b ← hexValue? b
  let c ← hexValue? c
  let d ← hexValue? d
  return ((a * 0x10 + b) * 0x10 + c) * 0x10 + d

/-- Four octets are taken for the digits of an escape, whatever they are. -/
def badHexGroup (s : List Char) : Failure :=
  if (Octets.ofChars s).length < 4 then ⟨.endInString, [], 0⟩ else ⟨.invalidEscape, s, 4⟩

/-- The 16 bit unit written with four hexadecimal digits. -/
def hexUnit : List Char → Except Failure (Nat × List Char)
  | a :: b :: c :: d :: rest =>
    match hexGroup? a b c d with
    | some unit => .ok (unit, rest)
    | none => .error (badHexGroup (a :: b :: c :: d :: rest))
  | s => .error (badHexGroup s)

def isHighSurrogate (unit : Nat) : Bool := 0xD800 ≤ unit && unit ≤ 0xDBFF

def isLowSurrogate (unit : Nat) : Bool := 0xDC00 ≤ unit && unit ≤ 0xDFFF

/-- The character two surrogates stand for together. -/
def pairedChar (high low : Nat) : Char :=
  Char.ofNat ((high - 0xD800) * 0x400 + (low - 0xDC00) + 0x10000)

/-- What follows a high surrogate: the escape of a low one. -/
def lowSurrogate (high : Nat) : List Char → Except Failure (Char × List Char)
  | [] => .error ⟨.endInString, [], 0⟩
  | [c] => .error (if c = '\\' then ⟨.endInString, [], 0⟩ else ⟨.unpairedSurrogate, [c], 1⟩)
  | c :: d :: rest =>
    if c ≠ '\\' then .error ⟨.unpairedSurrogate, c :: d :: rest, 1⟩
    else if d ≠ 'u' then .error ⟨.unpairedSurrogate, d :: rest, 1⟩
    else
      match hexUnit rest with
      | .error failure => .error failure
      | .ok (low, rest) =>
        if isLowSurrogate low then .ok (pairedChar high low, rest)
        else .error ⟨.loneLowSurrogate, rest, 0⟩

/-- The character written with hexadecimal digits, two groups of them for a surrogate pair. -/
def unicodeEscape (s : List Char) : Except Failure (Char × List Char) :=
  match hexUnit s with
  | .error failure => .error failure
  | .ok (unit, rest) =>
    if isLowSurrogate unit then .error ⟨.loneLowSurrogate, rest, 0⟩
    else if isHighSurrogate unit then lowSurrogate unit rest
    else .ok (Char.ofNat unit, rest)

/-- The character an escape of one letter stands for. -/
def shortEscape? (c : Char) : Option Char :=
  if c = '"' ∨ c = '\\' ∨ c = '/' then some c
  else if c = 'b' then some '\x08'
  else if c = 'f' then some '\x0c'
  else if c = 'n' then some '\n'
  else if c = 'r' then some '\r'
  else if c = 't' then some '\t'
  else none

/-- The character whose escape follows a backslash. -/
def escape : List Char → Except Failure (Char × List Char)
  | [] => .error ⟨.endInString, [], 0⟩
  | c :: rest =>
    match shortEscape? c with
    | some c => .ok (c, rest)
    | none => if c = 'u' then unicodeEscape rest else .error ⟨.invalidEscape, c :: rest, 1⟩

theorem hexUnit_shorter {s rest : List Char} {unit : Nat} (h : hexUnit s = .ok (unit, rest)) :
    rest.length < s.length := by
  match s, h with
  | [], h => cases h
  | [_], h => cases h
  | [_, _], h => cases h
  | [_, _, _], h => cases h
  | _ :: _ :: _ :: _ :: tail, h =>
      simp only [hexUnit] at h
      split at h
      next =>
        cases h
        simp only [List.length_cons]
        omega
      next => cases h

theorem lowSurrogate_shorter {high : Nat} {s rest : List Char} {c : Char}
    (h : lowSurrogate high s = .ok (c, rest)) : rest.length < s.length := by
  match s, h with
  | [], h => cases h
  | [_], h => cases h
  | first :: second :: tail, h =>
      simp only [lowSurrogate] at h
      split at h
      next => cases h
      split at h
      next => cases h
      split at h
      next => cases h
      next hunit =>
        split at h
        next =>
          simp only [Except.ok.injEq, Prod.mk.injEq] at h
          obtain ⟨_, rfl⟩ := h
          have := hexUnit_shorter hunit
          simp only [List.length_cons]
          omega
        next => cases h

theorem unicodeEscape_shorter {s rest : List Char} {c : Char}
    (h : unicodeEscape s = .ok (c, rest)) : rest.length < s.length := by
  unfold unicodeEscape at h
  split at h
  next => cases h
  next hunit =>
    have := hexUnit_shorter hunit
    split at h
    next => cases h
    split at h
    next => exact Nat.lt_trans (lowSurrogate_shorter h) this
    next => cases h; exact this

theorem escape_shorter {s rest : List Char} {c : Char} (h : escape s = .ok (c, rest)) :
    rest.length < s.length := by
  cases s with
  | nil => cases h
  | cons first tail =>
      simp only [escape] at h
      split at h
      next => cases h; exact Nat.lt_succ_self _
      next =>
        split at h
        next => exact Nat.lt_succ_of_lt (unicodeEscape_shorter h)
        next => cases h

/-- Reads up to the closing quotation mark; `read` holds the characters so far, last first. -/
def unquoteFrom (read s : List Char) : Except Failure (List Char × List Char) :=
  match s with
  | [] => .error ⟨.endInString, [], 0⟩
  | c :: rest =>
    if c = '"' then .ok (read.reverse, rest)
    else if c = '\\' then
      match h : escape rest with
      | .ok (c, after) =>
        have := escape_shorter h
        unquoteFrom (c :: read) after
      | .error failure => .error failure
    else if c.toNat < 0x20 then .error ⟨.controlCharacter, c :: rest, 1⟩
    else unquoteFrom (c :: read) rest
termination_by s.length

theorem unquoteFrom_shorter {read s text rest : List Char}
    (h : unquoteFrom read s = .ok (text, rest)) : rest.length < s.length := by
  fun_induction unquoteFrom read s with
  | case1 => cases h
  | case2 => cases h; exact Nat.lt_succ_self _
  | case3 read tail _ _ after _ shorter ih =>
      have := ih h
      simp only [List.length_cons]
      omega
  | case4 => cases h
  | case5 => cases h
  | case6 _ _ _ _ _ _ ih => exact Nat.lt_succ_of_lt (ih h)

/-- Reads the text between an opening quotation mark, already taken in, and the closing one. -/
def unquote : Reader String where
  run s :=
    match unquoteFrom [] s with
    | .ok (text, rest) => .ok (String.ofList text, rest)
    | .error failure => .error failure
  shrinks {s a rest} h := by
    split at h
    next hread => cases h; exact unquoteFrom_shorter hread
    next => cases h

end Extraction.Json
