import Extraction.Proofs.Json.Gate.Characters
import Extraction.Proofs.Json.Limits

/-!
# What is read as a number or a string

Whenever a number or a string is read, what has been taken in is spelled as the
grammar has it. Digits are taken to their end, also where they count for nothing
any more, and surrogates come in pairs.
-/

namespace Extraction.Json

section Letters

variable {c : Char}

/-- A character between two others is one of the letters when all in between are. -/
theorem mem_of_between {letters : List Char} (least last : Char)
    (hletters : ∀ n ≤ last.toNat, least.toNat ≤ n → Char.ofNat n ∈ letters) (hleast : least ≤ c)
    (hlast : c ≤ last) : c ∈ letters := by
  rw [← Char.ofNat_toNat c]
  exact hletters _ hlast hleast

theorem mem_digitLetters (hc : c.isDigit = true) : c ∈ digitLetters := by
  simp only [Char.isDigit, Bool.and_eq_true, decide_eq_true_eq] at hc
  exact mem_of_between '0' '9' (by decide) hc.1 hc.2

theorem mem_hexLetters {value : Nat} (hc : hexValue? c = some value) : c ∈ hexLetters := by
  unfold hexValue? at hc
  split at hc
  next h => exact mem_of_between '0' '9' (by decide) h.1 h.2
  split at hc
  next h => exact mem_of_between 'a' 'f' (by decide) h.1 h.2
  split at hc
  next h => exact mem_of_between 'A' 'F' (by decide) h.1 h.2
  next => cases hc

/-- White space, a mark, an escape: what the reader tests for is one of the letters. -/
theorem mem_blankLetters (hc : isSpace c = true) : c ∈ blankLetters := by
  simpa [isSpace, blankLetters, or_assoc] using hc

theorem mem_markLetters (hc : isExponentMark c = true) : c ∈ markLetters := by
  simpa [isExponentMark, markLetters] using hc

theorem mem_escapeLetters {d : Char} (hc : shortEscape? c = some d) : c ∈ escapeLetters := by
  unfold shortEscape? at hc
  split at hc
  next h => rcases h with rfl | rfl | rfl <;> decide
  split at hc
  next h => subst h; decide
  split at hc
  next h => subst h; decide
  split at hc
  next h => subst h; decide
  split at hc
  next h => subst h; decide
  split at hc
  next h => subst h; decide
  next => cases hc

theorem exists_writeSpace (s : List Char) : ∃ w : List Blank, s = writeSpace w ++ skipSpace s := by
  induction s with
  | nil => exact ⟨[], rfl⟩
  | cons c s ih =>
      cases hc : isSpace c with
      | true =>
          obtain ⟨w, hw⟩ := ih
          refine ⟨⟨c, mem_blankLetters hc⟩ :: w, ?_⟩
          simpa [writeSpace_cons, skipSpace, hc] using hw
      | false => exact ⟨[], by simp [skipSpace, hc, writeSpace]⟩

end Letters

section Numbers

variable {negative : Bool} {significand : Nat} {exponent : Int} {s rest : List Char} {n : Number}

theorem exists_spell_afterDigits (s : List Char) :
    ∃ ds : List Digit, s = spell ds ++ afterDigits s := by
  induction s with
  | nil => exact ⟨[], rfl⟩
  | cons c s ih =>
      cases hc : c.isDigit with
      | true =>
          obtain ⟨ds, hds⟩ := ih
          exact ⟨⟨c, mem_digitLetters hc⟩ :: ds, by simpa [afterDigits, hc] using hds⟩
      | false => exact ⟨[], by simp [afterDigits, hc]⟩

/-- Digits that do not fit the significand are skipped all the same. -/
theorem afterDigits_takeDigits (significand count : Nat) (s : List Char) :
    afterDigits (takeDigits significand count s).2.2 = afterDigits s := by
  fun_induction takeDigits significand count s with
  | case1 => rfl
  | case2 _ _ _ _ _ hc ih => simpa [afterDigits, hc.1] using ih
  | case3 => rfl

/-- An exponent is read to the end of its digits, or up to where it is too large. -/
theorem afterDigits_exponentDigits (value : Nat) (s : List Char) :
    afterDigits (exponentDigits value s).2 = afterDigits s ∧
      ((exponentDigits value s).1.isSome → (exponentDigits value s).2 = afterDigits s) := by
  fun_induction exponentDigits value s with
  | case1 => simp [afterDigits]
  | case2 _ _ _ hc _ _ ih => simpa [afterDigits, hc] using ih
  | case3 _ _ _ hc => simp [afterDigits, hc]
  | case4 _ _ _ hc => simp [afterDigits, hc]

theorem exists_exponentSign (s : List Char) :
    ∃ sign : Option (Among signLetters), s = spell sign.toList ++ (exponentSign s).2 := by
  unfold exponentSign
  split
  next => exact ⟨some ⟨'-', by decide⟩, rfl⟩
  next => exact ⟨some ⟨'+', by decide⟩, rfl⟩
  next => exact ⟨none, rfl⟩

/-- Behind the mark of an exponent a sign and digits are read. -/
theorem exponentPart_ok (h : exponentPart negative significand exponent s = .ok (n, rest)) :
    ∃ (sign : Option (Among signLetters)) (ds : Digits),
      s = spell sign.toList ++ (ds.spelled ++ rest) := by
  obtain ⟨sign, hsign⟩ := exists_exponentSign s
  unfold exponentPart at h
  split at h
  next => cases h
  next c tail htail =>
    obtain ⟨ds, hds⟩ := exists_spell_afterDigits tail
    obtain ⟨hafter, hsome⟩ := afterDigits_exponentDigits (digitValue c) tail
    split at h
    next hc =>
      refine ⟨sign, ⟨⟨c, mem_digitLetters hc⟩, ds⟩, ?_⟩
      have hrest : rest = afterDigits tail := by
        -- An exponent past all bounds stops short, and the digits left are skipped then.
        split at h
        next hdigits =>
          rw [hdigits] at hsome
          exact (endDouble_rest h).trans (hsome rfl)
        next hdigits =>
          rw [hdigits] at hafter
          split at h
          next => cases h
          next => cases h; exact hafter
      rw [hrest, Digits.spelled, List.cons_append, ← hds, ← htail]
      exact hsign
    next => cases h

theorem doubleEnd_ok (h : doubleEnd negative significand exponent s = .ok (n, rest)) :
    ∃ exponent : Option Exponent, s = spellEnd none exponent ++ rest := by
  cases s with
  | nil => exact ⟨none, (endDouble_rest h).symm⟩
  | cons c tail =>
      simp only [doubleEnd] at h
      split at h
      next hc =>
        obtain ⟨sign, ds, rfl⟩ := exponentPart_ok h
        refine ⟨some ⟨⟨c, mem_markLetters hc⟩, sign, ds⟩, ?_⟩
        rw [Gate.spellEnd_exponent, List.cons_append, List.append_assoc]
      next => exact ⟨none, (endDouble_rest h).symm⟩

theorem fractionPart_ok {skipped : Nat}
    (h : fractionPart negative significand skipped s = .ok (n, rest)) :
    ∃ (ds : Digits) (exponent : Option Exponent),
      s = ds.spelled ++ (spellEnd none exponent ++ rest) := by
  cases s with
  | nil => cases h
  | cons c tail =>
      simp only [fractionPart, afterDigits_takeDigits] at h
      split at h
      next hc =>
        obtain ⟨exponent, hend⟩ := doubleEnd_ok h
        obtain ⟨ds, hds⟩ := exists_spell_afterDigits tail
        have hafter : afterDigits (c :: tail) = afterDigits tail := by
          simp [afterDigits, hc]
        refine ⟨⟨⟨c, mem_digitLetters hc⟩, ds⟩, exponent, ?_⟩
        rw [← hend, hafter, Digits.spelled, List.cons_append, ← hds]
      next => cases h

theorem integerEnd_ok {skipped : Nat}
    (h : integerEnd negative significand skipped s = .ok (n, rest)) :
    ∃ (fraction : Option Digits) (exponent : Option Exponent),
      s = spellEnd fraction exponent ++ rest := by
  cases s with
  | nil =>
      simp only [integerEnd] at h
      split at h
      next => exact ⟨none, none, (endInteger_rest h).symm⟩
      next => exact ⟨none, none, (endDouble_rest h).symm⟩
  | cons c tail =>
      simp only [integerEnd] at h
      split at h
      next hpoint =>
        obtain ⟨ds, exponent, rfl⟩ := fractionPart_ok h
        refine ⟨some ds, exponent, ?_⟩
        rw [Gate.spellEnd_some, hpoint, List.cons_append, List.append_assoc]
      split at h
      next hmark =>
        obtain ⟨sign, ds, rfl⟩ := exponentPart_ok h
        refine ⟨none, some ⟨⟨c, mem_markLetters hmark⟩, sign, ds⟩, ?_⟩
        rw [Gate.spellEnd_exponent, List.cons_append, List.append_assoc]
      split at h
      next => exact ⟨none, none, (endInteger_rest h).symm⟩
      next => exact ⟨none, none, (endDouble_rest h).symm⟩

/-- What is read as a number is spelled as one. -/
theorem unsigned_ok (h : unsigned negative s = .ok (n, rest)) :
    ∃ literal : Literal, literal.negative = negative ∧ s = literal.unsigned ++ rest := by
  cases s with
  | nil => cases h
  | cons c tail =>
      simp only [unsigned, afterDigits_takeDigits] at h
      split at h
      next hc =>
        split at h
        next hzero =>
          split at h
          next => cases h
          next =>
            obtain ⟨fraction, exponent, rfl⟩ := integerEnd_ok h
            exact ⟨⟨negative, .zero, fraction, exponent⟩, rfl, by rw [hzero]; rfl⟩
        next hnonzero =>
          obtain ⟨fraction, exponent, hend⟩ := integerEnd_ok h
          obtain ⟨ds, hds⟩ := exists_spell_afterDigits tail
          have hfirst := Gate.nonzero_of_digit c (mem_digitLetters hc) hnonzero
          refine ⟨⟨negative, .digits ⟨c, hfirst⟩ ds, fraction, exponent⟩, rfl, ?_⟩
          rw [Literal.unsigned, List.append_assoc, ← hend, Whole.spelled, List.cons_append, ← hds]
      next => cases h

/-- The number is in range if it has been read to its end. -/
theorem exists_literal_of_unsigned (h : unsigned negative s = .ok (n, rest)) :
    ∃ literal : Literal, literal.negative = negative ∧ s = literal.unsigned ++ rest ∧
      (EndsNumeral rest → literal.InRange) := by
  obtain ⟨literal, hsign, hs⟩ := unsigned_ok h
  rw [hs, ← hsign] at h
  exact ⟨literal, hsign, hs, Literal.inRange_of_unsigned h⟩

end Numbers

section Strings

variable {s rest : List Char}

theorem hexGroup?_isSome {a b c d : Char} {unit : Nat} (h : hexGroup? a b c d = some unit) :
    a ∈ hexLetters ∧ b ∈ hexLetters ∧ c ∈ hexLetters ∧ d ∈ hexLetters := by
  simp only [hexGroup?, Option.bind_eq_bind, Option.bind_eq_some_iff] at h
  obtain ⟨_, ha, _, hb, _, hc, _, hd, _⟩ := h
  exact ⟨mem_hexLetters ha, mem_hexLetters hb, mem_hexLetters hc, mem_hexLetters hd⟩

theorem hexUnit_ok {unit : Nat} (h : hexUnit s = .ok (unit, rest)) :
    ∃ piece : Piece Char, '\\' :: 'u' :: s = piece.written ++ rest ∧ piece.unit? = some unit := by
  unfold hexUnit at h
  split at h
  next a b c d tail =>
    split at h
    next hgroup =>
      obtain ⟨ha, hb, hc, hd⟩ := hexGroup?_isSome hgroup
      cases h
      exact ⟨.unit ⟨a, ha⟩ ⟨b, hb⟩ ⟨c, hc⟩ ⟨d, hd⟩, rfl, hgroup⟩
    next => cases h
  next => cases h

theorem lowSurrogate_ok {high : Nat} {c : Char} (h : lowSurrogate high s = .ok (c, rest)) :
    ∃ piece : Piece Char, s = piece.written ++ rest ∧ piece.IsLow := by
  unfold lowSurrogate at h
  split at h
  next => cases h
  next => cases h
  next first second tail =>
    split at h
    next => cases h
    next hfirst =>
    split at h
    next => cases h
    next hsecond =>
    rw [Decidable.not_not] at hfirst hsecond
    split at h
    next => cases h
    next low _ hunit =>
      split at h
      next hlow =>
        simp only [Except.ok.injEq, Prod.mk.injEq] at h
        obtain ⟨_, rfl⟩ := h
        obtain ⟨piece, hpiece, hvalue⟩ := hexUnit_ok hunit
        rw [hfirst, hsecond]
        exact ⟨piece, hpiece, low, hvalue, hlow⟩
      next => cases h

/-- A piece that is the escape of a unit is a surrogate when that unit is one. -/
theorem Piece.isLow_iff {piece : Piece Char} {unit : Nat} (h : piece.unit? = some unit) :
    piece.IsLow ↔ isLowSurrogate unit = true := by
  simp [Piece.IsLow, h]

theorem Piece.isHigh_iff {piece : Piece Char} {unit : Nat} (h : piece.unit? = some unit) :
    piece.IsHigh ↔ isHighSurrogate unit = true := by
  simp [Piece.IsHigh, h]

theorem unicodeEscape_ok {c : Char} (h : unicodeEscape s = .ok (c, rest)) :
    ∃ body : Body Char, '\\' :: 'u' :: s = writeBody body ++ rest ∧
      ∀ tail, Paired tail → Paired (body ++ tail) := by
  unfold unicodeEscape at h
  split at h
  next => cases h
  next unit after hunit =>
    obtain ⟨piece, hpiece, hvalue⟩ := hexUnit_ok hunit
    split at h
    next => cases h
    next hlow =>
    split at h
    next hhigh =>
      obtain ⟨low, rfl, hpair⟩ := lowSurrogate_ok h
      exact ⟨[piece, low], by simp [writeBody, hpiece],
        fun tail htail => .pair ((Piece.isHigh_iff hvalue).mpr hhigh) hpair htail⟩
    next hhigh =>
      cases h
      exact ⟨[piece], by simp [writeBody, hpiece],
        fun tail htail => .single (mt (Piece.isHigh_iff hvalue).mp hhigh)
          (mt (Piece.isLow_iff hvalue).mp hlow) htail⟩

/-- What is read behind a backslash is one escape, or those of two surrogates. -/
theorem escape_ok {c : Char} (h : escape s = .ok (c, rest)) :
    ∃ body : Body Char, '\\' :: s = writeBody body ++ rest ∧
      ∀ tail, Paired tail → Paired (body ++ tail) := by
  cases s with
  | nil => cases h
  | cons letter tail =>
      simp only [escape] at h
      split at h
      next hletter =>
        cases h
        refine ⟨[.escaped ⟨letter, mem_escapeLetters hletter⟩], rfl, fun tail htail => ?_⟩
        exact .single (by simp [Piece.IsHigh, Piece.unit?]) (by simp [Piece.IsLow, Piece.unit?])
          htail
      split at h
      next hu =>
        rw [hu]
        exact unicodeEscape_ok h
      next => cases h

/-- What is read up to the closing mark is the body of a string with paired surrogates. -/
theorem unquoteFrom_ok {read text : List Char} (h : unquoteFrom read s = .ok (text, rest)) :
    ∃ body : Body Char, s = closeBody body ++ rest ∧ Paired body := by
  fun_induction unquoteFrom read s with
  | case1 => cases h
  | case2 => cases h; exact ⟨[], rfl, .nil⟩
  | case3 read tail c after hescape _ _ ih =>
      obtain ⟨body, rfl, hbody⟩ := ih h
      obtain ⟨escaped, hescaped, hpaired⟩ := escape_ok hescape
      exact ⟨escaped ++ body, by rw [hescaped, closeBody_append, List.append_assoc],
        hpaired body hbody⟩
  | case4 => cases h
  | case5 => cases h
  | case6 read c tail hmark hbackslash hcontrol ih =>
      obtain ⟨body, rfl, hbody⟩ := ih h
      obtain ⟨hoctet, hoctets⟩ := plain_iff.mpr ⟨hcontrol, hmark, hbackslash⟩
      refine ⟨.plain c hoctet hoctets.1 hoctets.2 :: body, by rw [closeBody_cons]; rfl, ?_⟩
      exact .single (by simp [Piece.IsHigh, Piece.unit?]) (by simp [Piece.IsLow, Piece.unit?]) hbody

theorem unquote_ok {text : String} (h : unquote.run s = .ok (text, rest)) :
    ∃ body : Body Char, s = closeBody body ++ rest ∧ Paired body := by
  simp only [unquote] at h
  split at h
  next hread => cases h; exact unquoteFrom_ok hread
  next => cases h

end Strings

end Extraction.Json
