import Extraction.Proofs.Json.Numeral
import Extraction.Proofs.Json.Phrase
import Extraction.Proofs.Number.Rounding

/-!
# Which numbers are in range

The digits of a number are read into a significand of at most 64 bits and a
power of ten. Both are rounded to doubles, and the number is in range when the
product of these is. As it is rounded twice, a number just below the largest
double can be out of range. Whatever ends a number, it is read exactly when it
is in range.
-/

namespace Extraction.Json

/-- In 53 bits each, the significand and the power of ten have a product that is not rounded up past
the largest double. A negative power is divided by, and leaves every significand in range. -/
def InScale (significand : Nat) (power : Int) : Prop :=
  Binary64.nearest significand * Binary64.nearest (10 ^ power.toNat) < Binary64.overflow

instance (significand : Nat) (power : Int) : Decidable (InScale significand power) :=
  inferInstanceAs (Decidable (_ < _))

def Exponent.isNegative (e : Exponent) : Bool := e.sign.any (·.1 == '-')

/-- What the digits of an exponent come to. -/
def Exponent.size (e : Exponent) : Nat := Nat.ofDigitChars 10 e.digits.spelled 0

def Exponent.power (e : Exponent) : Int := if e.isNegative then -e.size else e.size

/-- An exponent is added to the power of ten. One that does not fit 32 bits is too large for
everything but zero if it is positive, and leads to zero if it is negative. -/
def InScaleWith (significand : Nat) (power : Int) : Option Exponent → Prop
  | none => InScale significand power
  | some e =>
      if e.size < Nat.pow 2 31 then InScale significand (power + e.power)
      else significand = 0 ∨ e.isNegative = true

instance (significand : Nat) (power : Int) :
    (exponent : Option Exponent) → Decidable (InScaleWith significand power exponent)
  | none => inferInstanceAs (Decidable (InScale significand power))
  | some e => inferInstanceAs (Decidable (if e.size < Nat.pow 2 31 then
      InScale significand (power + e.power) else significand = 0 ∨ e.isNegative = true))

namespace Literal

variable (n : Literal)

/-- The digits in front of the point that are kept. -/
def keptWhole : List Char := kept 0 n.whole.spelled

/-- The digits behind the point that are kept with those in front of it. -/
def keptFraction : List Char :=
  kept (Nat.ofDigitChars 10 n.keptWhole 0) (n.fraction.elim [] Digits.spelled)

/-- What the digits that are kept come to. -/
def significand : Nat :=
  Nat.ofDigitChars 10 n.keptFraction (Nat.ofDigitChars 10 n.keptWhole 0)

/-- The power of ten that goes with the digits: one for each digit in front of the point that is
left out, less one for each digit behind it that is kept. -/
def shift : Int := (n.whole.spelled.length - n.keptWhole.length : Nat) - n.keptFraction.length

/-- A number whose digits, at their power of ten, come to a double. -/
def InRange : Prop := InScaleWith n.significand n.shift n.exponent

instance : Decidable n.InRange :=
  inferInstanceAs (Decidable (InScaleWith n.significand n.shift n.exponent))

end Literal

section Scaling

open Binary64

variable {x : Binary64} {n significand : Nat}

theorem exists_significand (hsize : significand < UInt64.size) :
    ∃ y, ofNat? significand = some y ∧ y.Bounded ∧ y.magnitude = nearest significand :=
  exists_ofNat? (hsize.trans_le (by decide +kernel))

theorem exists_powerOfTen? (hn : n ≤ 308) :
    ∃ y, powerOfTen? n = some y ∧ y.Bounded ∧ y.magnitude = nearest (10 ^ n) := by
  have hpow : ∀ n ≤ 308, 10 ^ n < overflow := by decide +kernel
  exact exists_ofNat? (hpow n hn)

/-- Powers of ten are at least one, so dividing by them leads to no larger double. -/
theorem exists_divideByPower? (hx : x.Bounded) (n : Nat) : ∃ y, divideByPower? x n = some y := by
  have hdivide {x : Binary64} {n : Nat} (hx : x.Bounded) (hn : n ≤ 308) :
      ∃ power quotient, powerOfTen? n = some power ∧ x.div? power = some quotient ∧
        quotient.Bounded := by
    obtain ⟨power, hpower, _, hvalue⟩ := exists_powerOfTen? hn
    have hone : 1 ≤ power.magnitude := by
      rw [hvalue]
      exact_mod_cast nearest_pos (Nat.pow_pos (by decide : 0 < 10))
    obtain ⟨quotient, hquotient, hbounded⟩ := exists_div? hx hone
    exact ⟨power, quotient, hpower, hquotient, hbounded⟩
  fun_induction divideByPower? x n with
  | case1 x n hn =>
      obtain ⟨power, quotient, hpower, hquotient, _⟩ := hdivide hx hn
      exact ⟨quotient, by simp [hpower, hquotient]⟩
  | case2 x n _ _ => exact ⟨x, rfl⟩
  | case3 x n _ _ ih =>
      obtain ⟨power, quotient, hpower, hquotient, hbounded⟩ := hdivide hx le_rfl
      obtain ⟨y, hy⟩ := ih quotient hbounded
      exact ⟨y, by simp [hpower, hquotient, hy]⟩

theorem inScale_of_nonpos {power : Int} (hsize : significand < UInt64.size) (hpower : power ≤ 0) :
    InScale significand power := by
  obtain ⟨x, _, hbounded, hvalue⟩ := exists_significand hsize
  have hlt := hbounded.magnitude_lt
  rw [hvalue] at hlt
  rw [InScale, Int.toNat_of_nonpos hpower, Nat.pow_zero, nearest_one, Nat.mul_one]
  exact_mod_cast hlt

/-- Powers of ten past the doubles leave only zero in range. -/
theorem inScale_iff_of_large {power : Int} (hpower : 308 < power) :
    InScale significand power ↔ significand = 0 := by
  have hpast {n : Nat} (hn : 309 ≤ n) : 2 ^ 1024 ≤ 10 ^ n :=
    le_trans (by decide +kernel) (Nat.pow_le_pow_right (by decide) hn)
  have hlarge : overflow ≤ nearest (10 ^ power.toNat) :=
    le_trans (by decide +kernel) (two_pow_le_nearest (hpast (by omega)))
  constructor
  · intro h
    by_contra hne
    have hpos := nearest_pos (Nat.pos_of_ne_zero hne)
    exact not_le.mpr h (hlarge.trans (Nat.le_mul_of_pos_left _ hpos))
  · rintro rfl
    rw [InScale, nearest_zero, Nat.zero_mul]
    decide +kernel

/-- A significand is scaled to a double exactly when it is in scale. -/
theorem isSome_scaled?_iff (hsize : significand < UInt64.size) (power : Int) :
    (scaled? significand power).isSome = true ↔ InScale significand power := by
  obtain ⟨x, hx, hbounded, hvalue⟩ := exists_significand hsize
  rw [scaled?, hx, Option.bind_eq_bind, Option.bind_some]
  split
  next hnegative =>
    obtain ⟨y, hy⟩ := exists_divideByPower? hbounded power.natAbs
    exact iff_of_true (by rw [hy]; rfl) (inScale_of_nonpos hsize hnegative.le)
  split
  next hnonneg hsmall =>
    obtain ⟨y, hy, _, hpower⟩ := exists_powerOfTen? (n := power.toNat) (by omega)
    have habs : power.natAbs = power.toNat := by omega
    rw [habs, hy, Option.bind_some, isSome_mul?_iff, hvalue, hpower, InScale]
    exact_mod_cast Iff.rfl
  next hlarge =>
    rw [inScale_iff_of_large (by omega)]
    rcases Nat.eq_zero_or_pos significand with rfl | hpos
    · obtain rfl := Option.some.inj hx
      exact iff_of_true rfl rfl
    · have hpositive : 0 < x.magnitude := by
        rw [hvalue]
        exact_mod_cast nearest_pos hpos
      have hzero : ¬ x.isZero = true := by
        intro hzero
        simp [magnitude, beq_iff_eq.mp hzero] at hpositive
      exact iff_of_false (by simp [hzero]) (Nat.ne_of_gt hpos)

/-- The shortest digits of the largest double are in scale, the same with two zeros are not. -/
example : InScale 17976931348623157 292 ∧ ¬ InScale 1797693134862315700 290 := by decide +kernel

end Scaling

section Digits

theorem isDigit_of_mem : ∀ c ∈ digitLetters, c.isDigit = true := forall_of_all (by decide)

theorem digit_of_nonzero : ∀ c ∈ nonzeroLetters, c.isDigit = true ∧ c ≠ '0' :=
  forall_of_all (by decide)

theorem isDigit_spell (ds : List Digit) : ∀ c ∈ spell ds, c.isDigit = true := by
  intro c hc
  obtain ⟨d, _, rfl⟩ := List.mem_map.mp hc
  exact isDigit_of_mem d.1 d.2

theorem Digits.isDigit_spelled (ds : Digits) : ∀ c ∈ ds.spelled, c.isDigit = true :=
  List.forall_mem_cons.mpr ⟨isDigit_of_mem ds.first.1 ds.first.2, isDigit_spell ds.rest⟩

theorem Whole.isDigit_spelled (whole : Whole) : ∀ c ∈ whole.spelled, c.isDigit = true := by
  cases whole with
  | zero => exact List.forall_mem_singleton.mpr rfl
  | digits first ds =>
      exact List.forall_mem_cons.mpr ⟨(digit_of_nonzero first.1 first.2).1, isDigit_spell ds⟩

theorem Literal.significand_lt (n : Literal) : n.significand < UInt64.size :=
  ofDigitChars_kept_lt (ofDigitChars_kept_lt (by decide) _) _

end Digits

section Numbers

/-- A numeral comes to the same whatever ends it: to a number if it is to be accepted, and to none
if it is not. -/
def Settled (accepted : Prop) (run : List Char → Except Failure (Number × List Char)) : Prop :=
  (accepted ∧ ∃ number, ∀ rest, EndsNumeral rest → run rest = .ok (number, rest)) ∨
    (¬ accepted ∧ ∀ rest, EndsNumeral rest → ∃ failure, run rest = .error failure)

variable {accepted : Prop} {run run' : List Char → Except Failure (Number × List Char)}
  {significand : Nat} (negative : Bool) (skipped : Nat) (power : Int)

theorem Settled.congr (h : Settled accepted run)
    (heq : ∀ rest, EndsNumeral rest → run' rest = run rest) : Settled accepted run' := by
  rcases h with ⟨haccepted, number, hok⟩ | ⟨hrefused, herror⟩
  · exact .inl ⟨haccepted, number, fun rest hrest => (heq rest hrest).trans (hok rest hrest)⟩
  · exact .inr ⟨hrefused, fun rest hrest => heq rest hrest ▸ herror rest hrest⟩

theorem settled_endDouble (hsize : significand < UInt64.size) :
    Settled (InScale significand power) (endDouble negative significand power) := by
  have hiff := isSome_scaled?_iff hsize power
  cases hscaled : scaled? significand power with
  | some x =>
      refine .inl ⟨hiff.mp (by rw [hscaled]; rfl), .double { x with negative }, fun rest _ => ?_⟩
      rw [endDouble, hscaled]
  | none =>
      refine .inr ⟨mt hiff.mpr (by rw [hscaled]; exact Bool.false_ne_true), fun rest _ => ?_⟩
      exact ⟨_, by rw [endDouble, hscaled]⟩

/-- All integers of at most 64 bits are accepted, and those are in scale. -/
theorem settled_endInteger (hsize : significand < UInt64.size) :
    Settled (InScale significand 0) (endInteger negative significand) := by
  have hscale := inScale_of_nonpos hsize le_rfl
  cases negative with
  | false => exact .inl ⟨hscale, .integer significand, fun rest _ => rfl⟩
  | true =>
      by_cases hdouble : significand = 0 ∨ Nat.pow 2 63 < significand
      · refine (settled_endDouble true 0 hsize).congr fun rest _ => ?_
        simp [endInteger, hdouble]
      · exact .inl ⟨hscale, .integer (-significand), fun rest _ => by simp [endInteger, hdouble]⟩

theorem exponentSign_spelled (e : Exponent) (rest : List Char) :
    exponentSign (spell e.sign.toList ++ (e.digits.spelled ++ rest)) =
      (e.isNegative, e.digits.first.1 :: (spell e.digits.rest ++ rest)) := by
  obtain ⟨mark, sign, ds⟩ := e
  cases sign with
  | none =>
      have hnoSign : ∀ c ∈ digitLetters, c ≠ '-' ∧ c ≠ '+' := forall_of_all (by decide)
      obtain ⟨hminus, hplus⟩ := hnoSign ds.first.1 ds.first.2
      simp [Digits.spelled, exponentSign, hminus, hplus, Exponent.isNegative]
  | some letter =>
      obtain ⟨letter, hletter⟩ := letter
      simp only [signLetters, List.mem_cons, List.not_mem_nil, or_false] at hletter
      rcases hletter with rfl | rfl
      · rfl
      · rfl

theorem Exponent.size_eq (e : Exponent) :
    e.size = Nat.ofDigitChars 10 (spell e.digits.rest) (digitValue e.digits.first.1) := by
  rw [size, Digits.spelled, ofDigitChars_cons_digitValue, Nat.zero_mul, Nat.zero_add]

theorem settled_exponentPart (hsize : significand < UInt64.size) (e : Exponent) :
    Settled (InScaleWith significand power (some e)) fun rest =>
      exponentPart negative significand power
        (spell e.sign.toList ++ (e.digits.spelled ++ rest)) := by
  have hfirst := isDigit_of_mem e.digits.first.1 e.digits.first.2
  have hdigit : digitValue e.digits.first.1 < Nat.pow 2 31 :=
    (digitValue_lt hfirst).trans (by decide)
  obtain ⟨left, hleft, hrun⟩ := exponentDigits_append (isDigit_spell e.digits.rest) hdigit
  rw [← e.size_eq] at hrun
  by_cases hfits : e.size < Nat.pow 2 31
  · have hpower : power + e.power = if e.isNegative then power - e.size else power + e.size := by
      rw [Exponent.power]
      split <;> rfl
    simp only [InScaleWith, hfits, ↓reduceIte, hpower] at hrun ⊢
    refine (settled_endDouble negative _ hsize).congr fun rest hrest => ?_
    simp [exponentPart, exponentSign_spelled, hfirst, hrun rest hrest.endsDigits]
  · simp only [InScaleWith, hfits, ↓reduceIte] at hrun ⊢
    by_cases hlarge : significand ≠ 0 ∧ e.isNegative = false
    · refine .inr ⟨by simpa using hlarge, fun rest hrest => ?_⟩
      refine ⟨⟨.numberOutOfRange, left ++ rest, 0⟩, ?_⟩
      simp [exponentPart, exponentSign_spelled, hfirst, hrun rest hrest.endsDigits, hlarge]
    · refine .inl ⟨by simpa [imp_iff_not_or] using hlarge,
        .double ⟨negative, 0, Binary64.leastExponent⟩, fun rest hrest => ?_⟩
      have hafter := (afterDigits_append hleft hrest.endsDigits).1
      simp [exponentPart, exponentSign_spelled, hfirst, hrun rest hrest.endsDigits, hlarge, hafter]

theorem isExponentMark_of_mem : ∀ c ∈ markLetters, isExponentMark c = true ∧ c ≠ '.' ∧
    c.isDigit = false := forall_of_all (by decide)

theorem settled_doubleEnd (hsize : significand < UInt64.size) (exponent : Option Exponent) :
    Settled (InScaleWith significand power exponent) fun rest =>
      doubleEnd negative significand power (spellEnd none exponent ++ rest) := by
  cases exponent with
  | none =>
      refine (settled_endDouble negative power hsize).congr fun rest hrest => ?_
      cases rest with
      | nil => rfl
      | cons c rest => simp [spellEnd, doubleEnd, (hrest c rfl).2.2]
  | some e =>
      obtain ⟨hmark, _⟩ := isExponentMark_of_mem e.mark.1 e.mark.2
      refine (settled_exponentPart negative power hsize e).congr fun rest _ => ?_
      simp [spellEnd, Exponent.spelled, doubleEnd, hmark]

/-- What stands behind the whole digits, or behind the fraction, is no further digit. -/
theorem endsDigits_spellEnd (fraction : Option Digits) (exponent : Option Exponent)
    {rest : List Char} (hrest : EndsDigits rest) :
    EndsDigits (spellEnd fraction exponent ++ rest) := by
  cases fraction with
  | some ds =>
      rintro _ ⟨⟩
      decide
  | none =>
      cases exponent with
      | none => exact hrest
      | some e =>
          rintro _ ⟨⟩
          exact (isExponentMark_of_mem e.mark.1 e.mark.2).2.2

theorem settled_fractionPart (hsize : significand < UInt64.size) (ds : Digits)
    (exponent : Option Exponent) :
    Settled (InScaleWith (Nat.ofDigitChars 10 (kept significand ds.spelled) significand)
        (skipped - (kept significand ds.spelled).length) exponent) fun rest =>
      fractionPart negative significand skipped
        (ds.spelled ++ (spellEnd none exponent ++ rest)) := by
  refine (settled_doubleEnd negative _ (ofDigitChars_kept_lt hsize ds.spelled)
    exponent).congr fun rest hrest => ?_
  have hend := endsDigits_spellEnd none exponent hrest.endsDigits
  have hdigits := ds.isDigit_spelled
  have htaken := takeDigits_kept hdigits significand 0 hend
  have hafter := (afterDigits_append
    (fun c hc => hdigits c (List.mem_of_mem_drop hc) :
      ∀ c ∈ ds.spelled.drop (kept significand ds.spelled).length, c.isDigit = true) hend).1
  generalize kept significand ds.spelled = digits at *
  simp only [Digits.spelled, List.cons_append] at hdigits htaken hafter ⊢
  simp only [fractionPart, hdigits _ List.mem_cons_self, ↓reduceIte, htaken, hafter, Nat.zero_add]

/-- The point and the fraction are kept with the digits in front of them. -/
theorem settled_integerEnd (hsize : significand < UInt64.size) (fraction : Option Digits)
    (exponent : Option Exponent) :
    Settled (InScaleWith
        (Nat.ofDigitChars 10 (kept significand (fraction.elim [] Digits.spelled)) significand)
        (skipped - (kept significand (fraction.elim [] Digits.spelled)).length) exponent)
      fun rest =>
        integerEnd negative significand skipped (spellEnd fraction exponent ++ rest) := by
  cases fraction with
  | some ds =>
      refine (settled_fractionPart negative skipped hsize ds exponent).congr fun rest _ => ?_
      simp [spellEnd, integerEnd]
  | none =>
      simp only [Option.elim_none, kept_nil, Nat.ofDigitChars_nil, List.length_nil,
        Int.natCast_zero, Int.sub_zero]
      cases exponent with
      | some e =>
          obtain ⟨hmark, hpoint, _⟩ := isExponentMark_of_mem e.mark.1 e.mark.2
          refine (settled_exponentPart negative skipped hsize e).congr fun rest _ => ?_
          simp [spellEnd, Exponent.spelled, integerEnd, hmark, hpoint]
      | none =>
          -- Nothing follows, and it depends on the digits whether this is an integer.
          by_cases hskipped : skipped = 0
          · subst hskipped
            refine (settled_endInteger negative hsize).congr fun rest hrest => ?_
            exact integerEnd_of_endsNumeral hrest negative significand
          · refine (settled_endDouble negative skipped hsize).congr fun rest hrest => ?_
            cases rest with
            | nil => simp [spellEnd, integerEnd, hskipped]
            | cons c rest =>
                obtain ⟨_, hpoint, hmark⟩ := hrest c rfl
                simp [spellEnd, integerEnd, hskipped, hpoint, hmark]

theorem settled_unsigned (n : Literal) :
    Settled n.InRange fun rest => unsigned n.negative (n.unsigned ++ rest) := by
  obtain ⟨negative, whole, fraction, exponent⟩ := n
  cases whole with
  | zero =>
      have hsize : 0 < UInt64.size := by decide
      have hinteger : Settled (Literal.InRange ⟨negative, .zero, fraction, exponent⟩) fun rest =>
          integerEnd negative 0 0 (spellEnd fraction exponent ++ rest) :=
        settled_integerEnd negative 0 hsize fraction exponent
      refine hinteger.congr fun rest hrest => ?_
      have hend := endsDigits_spellEnd fraction exponent hrest.endsDigits
      have hzero : '0'.isDigit = true := rfl
      simp only [Literal.unsigned, Whole.spelled, List.cons_append, List.nil_append, unsigned,
        hzero, hend.any_head?, Bool.false_eq_true, ↓reduceIte]
  | digits first ds =>
      obtain ⟨hfirst, hzero⟩ := digit_of_nonzero first.1 first.2
      have hdigit : digitValue first.1 < UInt64.size := (digitValue_lt hfirst).trans (by decide)
      have hkept : kept 0 (first.1 :: spell ds) =
          first.1 :: kept (digitValue first.1) (spell ds) := by
        rw [kept_cons, Nat.zero_mul, Nat.zero_add, if_pos hdigit]
      have hinteger := settled_integerEnd negative
        ((spell ds).length - (kept (digitValue first.1) (spell ds)).length)
        (ofDigitChars_kept_lt hdigit (spell ds)) fraction exponent
      simp only [Literal.InRange, Literal.significand, Literal.shift, Literal.keptFraction,
        Literal.keptWhole, Whole.spelled, hkept, ofDigitChars_cons_digitValue, Nat.zero_mul,
        Nat.zero_add, List.length_cons, Nat.add_sub_add_right]
      refine hinteger.congr fun rest hrest => ?_
      have hend := endsDigits_spellEnd fraction exponent hrest.endsDigits
      have htaken := takeDigits_kept (isDigit_spell ds) (digitValue first.1) 0 hend
      obtain ⟨hafter, htakeWhile⟩ := afterDigits_append
        (fun c hc => isDigit_spell ds c (List.mem_of_mem_drop hc) :
          ∀ c ∈ (spell ds).drop (kept (digitValue first.1) (spell ds)).length, c.isDigit = true)
        hend
      simp [Literal.unsigned, Whole.spelled, unsigned, hfirst, hzero, htaken, hafter, htakeWhile]

/-- A number in range is read wherever it stands. -/
theorem Literal.InRange.exists_unsigned {n : Literal} (h : n.InRange) :
    ∃ number, ∀ rest, EndsNumeral rest →
      Json.unsigned n.negative (n.unsigned ++ rest) = .ok (number, rest) := by
  rcases settled_unsigned n with ⟨_, hread⟩ | ⟨hrefused, _⟩
  · exact hread
  · exact absurd h hrefused

/-- A number that is read somewhere is in range. -/
theorem Literal.inRange_of_unsigned {n : Literal} {rest left : List Char} {number : Number}
    (h : Json.unsigned n.negative (n.unsigned ++ rest) = .ok (number, left))
    (hrest : EndsNumeral rest) : n.InRange := by
  rcases settled_unsigned n with ⟨hrange, _⟩ | ⟨_, hrefused⟩
  · exact hrange
  · obtain ⟨failure, herror⟩ := hrefused rest hrest
    simp only [h] at herror
    cases herror

end Numbers

end Extraction.Json
