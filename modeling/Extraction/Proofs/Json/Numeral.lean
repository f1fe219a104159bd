import Extraction.Json.Numeral
import Mathlib.Algebra.GroupWithZero.Nat
import Mathlib.Data.Nat.Find

/-!
# Reading digits

Digits are read into a natural below `2 ^ 64`, as many as it has room for,
whatever stands behind them that is no digit. So the digits of such a natural
are read back into it. A sign in front reaches down to `-2 ^ 63`.
-/

namespace Extraction.Json

/-- A text that does not go on with a numeral in front of it. -/
def EndsNumeral (rest : List Char) : Prop :=
  ∀ c ∈ rest.head?, c.isDigit = false ∧ c ≠ '.' ∧ isExponentMark c = false

/-- A text that does not go on with digits in front of it. -/
def EndsDigits (rest : List Char) : Prop := ∀ c ∈ rest.head?, c.isDigit = false

theorem EndsNumeral.endsDigits {rest : List Char} (h : EndsNumeral rest) : EndsDigits rest :=
  fun c hc => (h c hc).1

theorem endsNumeral_nil : EndsNumeral [] := nofun

theorem endsNumeral_cons {c : Char} {rest : List Char} (hdigit : c.isDigit = false)
    (hpoint : c ≠ '.') (hmark : isExponentMark c = false) : EndsNumeral (c :: rest) := by
  rintro _ ⟨⟩
  exact ⟨hdigit, hpoint, hmark⟩

theorem le_ofDigitChars (digits : List Char) (n : Nat) : n ≤ Nat.ofDigitChars 10 digits n := by
  rw [Nat.ofDigitChars_eq_ofDigitChars_zero]
  have hpow : 0 < 10 ^ digits.length := Nat.pow_pos (by decide)
  have := Nat.le_mul_of_pos_left n hpow
  omega

theorem digitValue_lt {c : Char} (h : c.isDigit = true) : digitValue c < 10 := by
  simp only [Char.isDigit, Bool.and_eq_true, decide_eq_true_eq] at h
  have hnine : c.toNat ≤ '9'.toNat := h.2
  simp only [Char.reduceToNat, digitValue] at hnine ⊢
  omega

theorem ofDigitChars_cons_digitValue (c : Char) (digits : List Char) (n : Nat) :
    Nat.ofDigitChars 10 (c :: digits) n = Nat.ofDigitChars 10 digits (n * 10 + digitValue c) := by
  rw [Nat.ofDigitChars_cons, Nat.mul_comm 10 n]
  rfl

/-- So many digits stand for less than that power of ten. -/
theorem ofDigitChars_lt {digits : List Char} (hdigits : ∀ c ∈ digits, c.isDigit = true) (n : Nat) :
    Nat.ofDigitChars 10 digits n < (n + 1) * 10 ^ digits.length := by
  induction digits generalizing n with
  | nil => simp
  | cons c digits ih =>
      obtain ⟨hc, hdigits⟩ := List.forall_mem_cons.mp hdigits
      have hdigit := digitValue_lt hc
      rw [ofDigitChars_cons_digitValue, List.length_cons, Nat.pow_succ']
      calc Nat.ofDigitChars 10 digits (n * 10 + digitValue c)
          < (n * 10 + digitValue c + 1) * 10 ^ digits.length := ih hdigits _
        _ ≤ ((n + 1) * 10) * 10 ^ digits.length := Nat.mul_le_mul_right _ (by omega)
        _ = (n + 1) * (10 * 10 ^ digits.length) := Nat.mul_assoc _ _ _

section Digits

variable {digits rest : List Char} {significand : Nat}

theorem EndsDigits.any_head? (h : EndsDigits rest) :
    rest.head?.any Char.isDigit = false := by
  cases rest with
  | nil => rfl
  | cons c rest => exact h c rfl

theorem afterDigits_of_endsDigits (hrest : EndsDigits rest) :
    rest.takeWhile Char.isDigit = [] ∧ afterDigits rest = rest := by
  cases rest with
  | nil => exact ⟨rfl, rfl⟩
  | cons c rest => simp [afterDigits, hrest c rfl]

theorem afterDigits_append (hdigits : ∀ c ∈ digits, c.isDigit = true) (hrest : EndsDigits rest) :
    afterDigits (digits ++ rest) = rest ∧ (digits ++ rest).takeWhile Char.isDigit = digits := by
  obtain ⟨htakeWhile, hafter⟩ := afterDigits_of_endsDigits hrest
  rw [afterDigits, List.dropWhile_append_of_pos hdigits, List.takeWhile_append_of_pos hdigits,
    htakeWhile, List.append_nil]
  exact ⟨hafter, rfl⟩

/-- A significand stays below `2 ^ 64` when so many digits are read into it. -/
def Keeps (significand : Nat) (digits : List Char) (n : Nat) : Prop :=
  Nat.ofDigitChars 10 (digits.take n) significand < UInt64.size

instance (significand : Nat) (digits : List Char) : DecidablePred (Keeps significand digits) :=
  fun n => inferInstanceAs
    (Decidable (Nat.ofDigitChars 10 (digits.take n) significand < UInt64.size))

/-- The digits that are read into a significand: as many as keep it below `2 ^ 64`. -/
def kept (significand : Nat) (digits : List Char) : List Char :=
  digits.take (Nat.findGreatest (Keeps significand digits) digits.length)

@[simp] theorem kept_nil (significand : Nat) : kept significand [] = [] := rfl

theorem keeps_succ_iff (significand : Nat) (c : Char) (digits : List Char) (n : Nat) :
    Keeps significand (c :: digits) (n + 1) ↔
      Keeps (significand * 10 + digitValue c) digits n := by
  rw [Keeps, Keeps, List.take_succ_cons, ofDigitChars_cons_digitValue]

/-- A digit is kept, and those behind it may be, if the significand fits with it. -/
theorem kept_cons (significand : Nat) (c : Char) (digits : List Char) :
    kept significand (c :: digits) =
      if significand * 10 + digitValue c < UInt64.size then
        c :: kept (significand * 10 + digitValue c) digits
      else [] := by
  unfold kept
  split
  next hfits =>
    have hone : Nat.findGreatest (Keeps significand (c :: digits)) (digits.length + 1) =
        Nat.findGreatest (Keeps (significand * 10 + digitValue c) digits) digits.length + 1 := by
      refine Nat.findGreatest_eq_iff.mpr
        ⟨Nat.succ_le_succ (Nat.findGreatest_le _), fun _ => ?_, fun n hmore hle => ?_⟩
      · rw [keeps_succ_iff]
        exact Nat.findGreatest_spec (Nat.zero_le _) hfits
      · obtain ⟨m, rfl⟩ := Nat.exists_eq_succ_of_ne_zero (Nat.ne_of_gt (Nat.zero_lt_of_lt hmore))
        rw [keeps_succ_iff]
        exact Nat.findGreatest_is_greatest (Nat.lt_of_succ_lt_succ hmore)
          (Nat.le_of_succ_le_succ hle)
    rw [List.length_cons, hone, List.take_succ_cons]
  next hlarge =>
    have hnone : Nat.findGreatest (Keeps significand (c :: digits)) (c :: digits).length = 0 := by
      refine Nat.findGreatest_eq_zero_iff.mpr fun n hpos _ => ?_
      obtain ⟨m, rfl⟩ := Nat.exists_eq_succ_of_ne_zero (Nat.ne_of_gt hpos)
      rw [keeps_succ_iff]
      exact fun h => hlarge (Nat.lt_of_le_of_lt (le_ofDigitChars _ _) h)
    rw [hnone, List.take_zero]

theorem kept_of_lt (h : Nat.ofDigitChars 10 digits significand < UInt64.size) :
    kept significand digits = digits := by
  have hall : Keeps significand digits digits.length := by rwa [Keeps, List.take_length]
  rw [kept, Nat.findGreatest_eq hall, List.take_length]

theorem ofDigitChars_kept_lt (hsize : significand < UInt64.size) (digits : List Char) :
    Nat.ofDigitChars 10 (kept significand digits) significand < UInt64.size := by
  induction digits generalizing significand with
  | nil => exact hsize
  | cons c digits ih =>
      rw [kept_cons]
      split
      next hfits =>
        rw [ofDigitChars_cons_digitValue]
        exact ih hfits
      next => exact hsize

/-- The digits that are kept are those that are taken, whatever stands behind all of them. -/
theorem takeDigits_kept (hdigits : ∀ c ∈ digits, c.isDigit = true) (significand count : Nat)
    (hrest : EndsDigits rest) :
    takeDigits significand count (digits ++ rest) =
      (Nat.ofDigitChars 10 (kept significand digits) significand,
        count + (kept significand digits).length,
        digits.drop (kept significand digits).length ++ rest) := by
  induction digits generalizing significand count with
  | nil =>
      cases rest with
      | nil => rfl
      | cons c rest => simp [takeDigits, hrest c rfl]
  | cons c digits ih =>
      obtain ⟨hc, htail⟩ := List.forall_mem_cons.mp hdigits
      rw [kept_cons, List.cons_append, takeDigits]
      by_cases hfits : significand * 10 + digitValue c < UInt64.size
      · simp only [hc, hfits, and_self, ↓reduceIte, ih htail, ofDigitChars_cons_digitValue,
          List.length_cons, List.drop_succ_cons, Nat.add_assoc, Nat.add_comm 1]
      · simp [hfits]

/-- The digits of an exponent are all taken unless it is too large. -/
theorem exponentDigits_append (hdigits : ∀ c ∈ digits, c.isDigit = true) {value : Nat}
    (hvalue : value < Nat.pow 2 31) :
    ∃ left, (∀ c ∈ left, c.isDigit = true) ∧ ∀ rest, EndsDigits rest →
      exponentDigits value (digits ++ rest) =
        if Nat.ofDigitChars 10 digits value < Nat.pow 2 31 then
          (some (Nat.ofDigitChars 10 digits value), rest)
        else (none, left ++ rest) := by
  induction digits generalizing value with
  | nil =>
      refine ⟨[], nofun, fun rest hrest => ?_⟩
      rw [Nat.ofDigitChars_nil, if_pos hvalue]
      cases rest with
      | nil => rfl
      | cons c rest => simp [exponentDigits, hrest c rfl]
  | cons c digits ih =>
      obtain ⟨hc, htail⟩ := List.forall_mem_cons.mp hdigits
      rw [ofDigitChars_cons_digitValue]
      by_cases hfits : value * 10 + digitValue c < Nat.pow 2 31
      · obtain ⟨left, hleft, hrun⟩ := ih htail hfits
        refine ⟨left, hleft, fun rest hrest => ?_⟩
        simp only [List.cons_append, exponentDigits, hc, hfits, ↓reduceIte, hrun rest hrest]
      · refine ⟨digits, htail, fun rest _ => ?_⟩
        have hlarge : ¬ Nat.ofDigitChars 10 digits (value * 10 + digitValue c) < Nat.pow 2 31 :=
          fun h => hfits (Nat.lt_of_le_of_lt (le_ofDigitChars _ _) h)
        simp only [List.cons_append, exponentDigits, hc, hfits, hlarge, ↓reduceIte]

end Digits

/-- The digits of a positive number do not begin with a zero. -/
theorem exists_toDigits_eq_cons {n : Nat} (hn : 0 < n) :
    ∃ c digits, Nat.toDigits 10 n = c :: digits ∧ c ≠ '0' := by
  induction n using Nat.strongRecOn with
  | ind n ih =>
      rw [Nat.toDigits_eq_if (by decide)]
      split
      next hsmall =>
        refine ⟨n.digitChar, [], rfl, ?_⟩
        have hnonzero : ∀ m < 10, 0 < m → m.digitChar ≠ '0' := by decide
        exact hnonzero n hsmall hn
      next hlarge =>
        obtain ⟨c, digits, hdigits, hc⟩ := ih (n / 10) (by omega) (by omega)
        exact ⟨c, digits ++ [(n % 10).digitChar], by rw [hdigits, List.cons_append], hc⟩

theorem integerEnd_of_endsNumeral {rest : List Char} (hrest : EndsNumeral rest) (negative : Bool)
    (n : Nat) : integerEnd negative n 0 rest = endInteger negative n rest := by
  cases rest with
  | nil => simp [integerEnd]
  | cons c rest =>
      obtain ⟨_, hpoint, hmark⟩ := hrest c rfl
      simp [integerEnd, hpoint, hmark]

/-- A zero with nothing of a numeral behind it is read as zero. -/
theorem unsigned_zero {rest : List Char} (hrest : EndsNumeral rest) (negative : Bool) :
    unsigned negative ('0' :: rest) = endInteger negative 0 rest := by
  simp [unsigned, hrest.endsDigits.any_head?, integerEnd_of_endsNumeral hrest]

/-- Digits that do not begin with a zero are read as their value when it has 64 bits. -/
theorem unsigned_digits {c : Char} {digits rest : List Char}
    (hdigits : ∀ d ∈ c :: digits, d.isDigit = true) (hzero : c ≠ '0')
    (hsize : Nat.ofDigitChars 10 (c :: digits) 0 < UInt64.size) (hrest : EndsNumeral rest)
    (negative : Bool) :
    unsigned negative (c :: digits ++ rest) =
      endInteger negative (Nat.ofDigitChars 10 (c :: digits) 0) rest := by
  obtain ⟨hc, hdigits⟩ := List.forall_mem_cons.mp hdigits
  have hvalue : Nat.ofDigitChars 10 (c :: digits) 0 =
      Nat.ofDigitChars 10 digits (digitValue c) := by
    rw [ofDigitChars_cons_digitValue, Nat.zero_mul, Nat.zero_add]
  rw [hvalue] at hsize ⊢
  obtain ⟨htakeWhile, hafter⟩ := afterDigits_of_endsDigits hrest.endsDigits
  simp only [List.cons_append, unsigned, hc, ↓reduceIte, hzero,
    takeDigits_kept hdigits _ 0 hrest.endsDigits, kept_of_lt hsize, List.drop_length,
    List.nil_append, htakeWhile, hafter, List.length_nil]
  exact integerEnd_of_endsNumeral hrest negative _

/-- The digits of a natural of 64 bits are read back. -/
theorem unsigned_toDigits {n : Nat} (hn : n < UInt64.size) {rest : List Char}
    (hrest : EndsNumeral rest) (negative : Bool) :
    unsigned negative (Nat.toDigits 10 n ++ rest) = endInteger negative n rest := by
  rcases Nat.eq_zero_or_pos n with rfl | hpos
  · rw [Nat.toDigits_zero]
    exact unsigned_zero hrest negative
  · obtain ⟨c, digits, htoDigits, hzero⟩ := exists_toDigits_eq_cons hpos
    have hall : ∀ d ∈ c :: digits, d.isDigit = true := fun d hd =>
      Nat.isDigit_of_mem_toDigits (by decide) (by decide) (htoDigits ▸ hd)
    have hvalue : Nat.ofDigitChars 10 (c :: digits) 0 = n := by
      rw [← htoDigits]
      exact Nat.ofDigitChars_ten_toDigits
    rw [htoDigits, unsigned_digits hall hzero (hvalue.symm ▸ hn) hrest, hvalue]

end Extraction.Json
