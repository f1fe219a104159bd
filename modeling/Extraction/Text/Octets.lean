/-! # Octets of a text

A text is stored and compared as its UTF-8 octets. `Octets.ofChars` writes
them, `Octets.toChars?` reads them back and refuses every sequence that is not
the UTF-8 form of some text: stray or missing trailing octets, forms longer
than needed, surrogates and numbers past the last code point.
-/

namespace Extraction

/-- A sequence of octets. -/
abbrev Octets := List UInt8

namespace Octets

/-- The UTF-8 octets of one character. -/
def ofChar (c : Char) : Octets :=
  let n := c.toNat
  if n < 0x80 then [n.toUInt8]
  else if n < 0x800 then [(0xC0 + n / 0x40).toUInt8, (0x80 + n % 0x40).toUInt8]
  else if n < 0x10000 then
    [(0xE0 + n / 0x1000).toUInt8, (0x80 + n / 0x40 % 0x40).toUInt8, (0x80 + n % 0x40).toUInt8]
  else
    [(0xF0 + n / 0x40000).toUInt8, (0x80 + n / 0x1000 % 0x40).toUInt8,
      (0x80 + n / 0x40 % 0x40).toUInt8, (0x80 + n % 0x40).toUInt8]

/-- The UTF-8 octets of a text given by its characters. -/
def ofChars (s : List Char) : Octets := s.flatMap ofChar

/-- The UTF-8 octets of a text. -/
def ofString (s : String) : Octets := ofChars s.toList

/-- Trailing octets carry six bits under the mark `10`. -/
def isTrailing (b : UInt8) : Bool := 0x80 ≤ b && b < 0xC0

/-- The six bits a trailing octet carries. -/
def payload (b : UInt8) : Nat := b.toNat % 0x40

/-- The character a complete octet group stands for, provided it needs that many octets. -/
def charFrom? (least n : Nat) : Option Char :=
  if least ≤ n && (n < 0xD800 || (0xE000 ≤ n && n < 0x110000)) then some (Char.ofNat n) else none

/-- Takes in `count` trailing octets after a leading one, each adding six bits to `n`. -/
def trailing (least : Nat) : Nat → Nat → Octets → Option (Char × Octets)
  | 0, n, rest => (charFrom? least n).map (·, rest)
  | _ + 1, _, [] => none
  | count + 1, n, b :: rest =>
    if isTrailing b then trailing least count (n * 0x40 + payload b) rest else none

/-- The first character of a text's octets, and the octets after it. -/
def nextChar? : Octets → Option (Char × Octets)
  | [] => none
  | a :: rest =>
    if a < 0x80 then some (Char.ofNat a.toNat, rest)
    else if 0xC0 ≤ a && a < 0xE0 then trailing 0x80 1 (a.toNat % 0x20) rest
    else if 0xE0 ≤ a && a < 0xF0 then trailing 0x800 2 (a.toNat % 0x10) rest
    else if 0xF0 ≤ a && a < 0xF8 then trailing 0x10000 3 (a.toNat % 0x8) rest
    else none

theorem trailing_length_le {least count n : Nat} {s rest : Octets} {c : Char}
    (h : trailing least count n s = some (c, rest)) : rest.length ≤ s.length := by
  fun_induction trailing least count n s with
  | case1 n s =>
      obtain ⟨_, _, heq⟩ := Option.map_eq_some_iff.mp h
      cases heq
      exact Nat.le_refl _
  | case2 => cases h
  | case3 count n b tail _ ih => exact Nat.le_trans (ih h) (Nat.le_succ _)
  | case4 => cases h

theorem nextChar?_shorter {s rest : Octets} {c : Char} (h : nextChar? s = some (c, rest)) :
    rest.length < s.length := by
  cases s with
  | nil => cases h
  | cons a tail =>
      have bound {least count n : Nat} (ht : trailing least count n tail = some (c, rest)) :
          rest.length < (a :: tail).length := Nat.lt_succ_of_le (trailing_length_le ht)
      simp only [nextChar?] at h
      split at h
      next => cases h; exact Nat.lt_succ_self _
      split at h
      next => exact bound h
      split at h
      next => exact bound h
      split at h
      next => exact bound h
      next => cases h

/-- The characters of a text given by its octets, or nothing when they are not UTF-8. -/
def toChars? (s : Octets) : Option (List Char) :=
  match h : nextChar? s with
  | none => if s.isEmpty then some [] else none
  | some (c, rest) =>
    have := nextChar?_shorter h
    (toChars? rest).map (c :: ·)
termination_by s.length

/-- The text given by its octets, or nothing when they are not UTF-8. -/
def toString? (s : Octets) : Option String := (toChars? s).map String.ofList

end Octets

/-- Texts are ordered by their UTF-8 octets. -/
def Text.before (a b : String) : Bool := decide (Octets.ofString a < Octets.ofString b)

end Extraction
