import Extraction.Json.Quoted

/-!
# Reading quoted text

Whatever is written between quotation marks is read back character by
character, and reading ends at the closing mark, whatever stands behind it.
-/

namespace Extraction.Json

theorem unquoteFrom_close (read rest : List Char) :
    unquoteFrom read ('"' :: rest) = .ok (read.reverse, rest) := by
  rw [unquoteFrom, if_pos rfl]

theorem unquoteFrom_plain {c : Char} (hmark : c ≠ '"') (hbackslash : c ≠ '\\')
    (hcontrol : ¬ c.toNat < 0x20) (read rest : List Char) :
    unquoteFrom read (c :: rest) = unquoteFrom (c :: read) rest := by
  rw [unquoteFrom, if_neg hmark, if_neg hbackslash, if_neg hcontrol]

theorem unquoteFrom_escape {s after : List Char} {c : Char} (h : escape s = .ok (c, after))
    (read : List Char) : unquoteFrom read ('\\' :: s) = unquoteFrom (c :: read) after := by
  rw [unquoteFrom, if_neg (by decide), if_pos rfl]
  split
  next heq => rw [h] at heq; cases heq; rfl
  next heq => rw [h] at heq; cases heq

theorem escape_of_short {letter c : Char} (h : shortEscape? letter = some c) (rest : List Char) :
    escape (letter :: rest) = .ok (c, rest) := by
  simp [escape, h]

theorem hexValue?_hexDigit : ∀ n < 0x10, hexValue? (hexDigit n) = some n := by decide

/-- A control character is read back from the two low digits of its number. -/
theorem escape_control {c : Char} (h : c.toNat < 0x20) (rest : List Char) :
    escape ('u' :: '0' :: '0' :: hexDigit (c.toNat / 0x10) :: hexDigit (c.toNat % 0x10) :: rest) =
      .ok (c, rest) := by
  have hhigh := hexValue?_hexDigit (c.toNat / 0x10) (by omega)
  have hlow := hexValue?_hexDigit (c.toNat % 0x10) (by omega)
  have hzero : hexValue? '0' = some 0 := by decide
  have hunit : hexGroup? '0' '0' (hexDigit (c.toNat / 0x10)) (hexDigit (c.toNat % 0x10)) =
      some c.toNat := by
    simp only [hexGroup?, hzero, hhigh, hlow, Option.bind_eq_bind, Option.bind_some,
      Option.pure_def, Option.some.injEq]
    omega
  have hlowSurrogate : isLowSurrogate c.toNat = false := by simp [isLowSurrogate]; omega
  have hhighSurrogate : isHighSurrogate c.toNat = false := by simp [isHighSurrogate]; omega
  have hshort : shortEscape? 'u' = none := by decide
  simp [escape, hshort, unicodeEscape, hexUnit, hunit, hlowSurrogate, hhighSurrogate]

/-- A written character is read back. -/
theorem unquoteFrom_quoteChar (c : Char) (read rest : List Char) :
    unquoteFrom read (quoteChar c ++ rest) = unquoteFrom (c :: read) rest := by
  have hshort (letter d : Char) (hletter : shortEscape? letter = some d)
      (hd : c.toNat = d.toNat) :
      unquoteFrom read ('\\' :: letter :: rest) = unquoteFrom (c :: read) rest := by
    rw [unquoteFrom_escape (escape_of_short hletter rest), Char.toNat_inj.mp hd]
  unfold quoteChar
  split
  next hc => exact hshort '"' '"' (by decide) (congrArg Char.toNat hc)
  next hmark =>
  split
  next hc => exact hshort '\\' '\\' (by decide) (congrArg Char.toNat hc)
  next hbackslash =>
  split
  next hcontrol =>
    split
    next hc => exact hshort 'b' '\x08' (by decide) hc
    split
    next hc => exact hshort 't' '\t' (by decide) hc
    split
    next hc => exact hshort 'n' '\n' (by decide) hc
    split
    next hc => exact hshort 'f' '\x0c' (by decide) hc
    split
    next hc => exact hshort 'r' '\r' (by decide) hc
    next => exact unquoteFrom_escape (escape_control hcontrol rest) read
  next hcontrol => exact unquoteFrom_plain hmark hbackslash hcontrol read rest

theorem unquoteFrom_quoteBody (s read rest : List Char) :
    unquoteFrom read (quoteBody s ++ '"' :: rest) = .ok (read.reverse ++ s, rest) := by
  induction s generalizing read with
  | nil => simpa [quoteBody] using unquoteFrom_close read rest
  | cons c s ih =>
      have hbody : quoteBody (c :: s) ++ '"' :: rest =
          quoteChar c ++ (quoteBody s ++ '"' :: rest) := by
        simp [quoteBody]
      rw [hbody, unquoteFrom_quoteChar, ih]
      simp

/-- Quoted text is read back, up to the closing mark. -/
theorem unquote_quoteBody (s : String) (rest : List Char) :
    unquote.run (quoteBody s.toList ++ '"' :: rest) = .ok (s, rest) := by
  simp [unquote, unquoteFrom_quoteBody]

end Extraction.Json
