import Extraction.Number.Binary64
import Mathlib.Algebra.Order.Field.Power
import Mathlib.Data.Rat.Cast.Order
import Mathlib.Tactic.Linarith
import Mathlib.Tactic.NormNum
import Mathlib.Tactic.Positivity
import Mathlib.Tactic.Ring

/-!
# Where rounding leaves the doubles

A positive fraction is rounded at the power of two at which it has 53 bits. So
there is a double for it exactly when it lies below the middle between the
largest double and the next power of two, which would be rounded up to that
power. Products and quotients are fractions, and natural numbers are rounded to
natural numbers.
-/

namespace Extraction.Binary64

/-- The middle between the largest double and `2 ^ 1024`. -/
def overflow : Nat := (2 ^ 54 - 1) * 2 ^ 970

theorem overflow_eq : (overflow : ℚ) = (2 ^ 54 - 1) * 2 ^ (970 : Int) := by
  have hcast (k : Nat) : (((2 ^ 54 - 1) * 2 ^ k : Nat) : ℚ) = (2 ^ 54 - 1) * 2 ^ (k : Int) := by
    rw [Nat.cast_mul, Nat.cast_pow, zpow_natCast]
    norm_num
  exact hcast 970

theorem overflow_bounds :
    (2 : ℚ) ^ (1023 : Int) < overflow ∧ (overflow : ℚ) < 2 ^ (1024 : Int) := by
  have hpos : (0 : ℚ) < 2 ^ (970 : Int) := by positivity
  rw [overflow_eq, show (1023 : Int) = 53 + 970 from rfl, show (1024 : Int) = 54 + 970 from rfl,
    zpow_add₀ two_ne_zero, zpow_add₀ two_ne_zero]
  exact ⟨mul_lt_mul_of_pos_right (by norm_num) hpos, mul_lt_mul_of_pos_right (by norm_num) hpos⟩

/-- A natural number in 53 bits, rounded to the nearest such number, of two to the even one. -/
def nearest (n : Nat) : Nat := roundQuotient n (2 ^ (n.log2 - 52)) * 2 ^ (n.log2 - 52)

/-- The absolute value of a double. -/
def magnitude (x : Binary64) : ℚ := x.significand * 2 ^ x.exponent

/-- The bounds that finite doubles keep to. -/
structure Bounded (x : Binary64) : Prop where
  significand : x.significand < 2 ^ 53
  exponent : x.exponent ≤ greatestExponent

section Quotients

variable {n d m : Nat}

theorem roundQuotient_cases (n d : Nat) :
    (roundQuotient n d = n / d + 1 ∧ d ≤ 2 * (n % d)) ∨
      (roundQuotient n d = n / d ∧ 2 * (n % d) ≤ d) := by
  unfold roundQuotient
  dsimp only
  split
  next hup =>
    simp only [Bool.or_eq_true, decide_eq_true_eq, Bool.and_eq_true, beq_iff_eq] at hup
    exact .inl ⟨rfl, by omega⟩
  next hdown =>
    simp only [Bool.or_eq_true, decide_eq_true_eq, Bool.and_eq_true, beq_iff_eq] at hdown
    exact .inr ⟨rfl, by omega⟩

/-- A half is rounded up to an even number. -/
theorem roundQuotient_of_half (hodd : n / d % 2 = 1) (h : d ≤ 2 * (n % d)) :
    roundQuotient n d = n / d + 1 := by
  have hup : d < 2 * (n % d) ∨ 2 * (n % d) = d ∧ n / d % 2 = 1 := by omega
  unfold roundQuotient
  simp [hup]

/-- So an even number is reached from the half below it on. -/
theorem le_roundQuotient_iff (hd : 0 < d) (heven : m % 2 = 0) :
    m ≤ roundQuotient n d ↔ 2 * (m * d) ≤ 2 * n + d := by
  have hsplit : n / d * d + n % d = n := Nat.div_add_mod' n d
  have hrest : n % d < d := Nat.mod_lt n hd
  have hcases := roundQuotient_cases n d
  rcases Nat.lt_trichotomy m (n / d + 1) with hless | heq | hmore
  · have hmul : m * d ≤ n / d * d := Nat.mul_le_mul_right d (Nat.le_of_lt_succ hless)
    exact iff_of_true (by omega) (by omega)
  · have hodd : n / d % 2 = 1 := by omega
    have hmul : m * d = n / d * d + d := by rw [heq, Nat.succ_mul]
    constructor
    · intro h
      omega
    · intro h
      rw [roundQuotient_of_half hodd (by omega), heq]
  · have hmul : (n / d + 2) * d ≤ m * d := Nat.mul_le_mul_right d hmore
    rw [Nat.add_mul] at hmul
    exact iff_of_false (by omega) (by omega)

theorem roundQuotient_mul (n : Nat) (hd : 0 < d) : roundQuotient (n * d) d = n := by
  have hcases := roundQuotient_cases (n * d) d
  rw [Nat.mul_div_cancel n hd, Nat.mul_mod_left] at hcases
  omega

end Quotients

section Fractions

variable {n d : Nat}

/-- A fraction that is shifted is divided by a power of two. -/
theorem shiftDown_spec (n : Nat) (hd : 0 < d) (shift : Int) :
    0 < (shiftDown n d shift).2 ∧
      ((shiftDown n d shift).1 : ℚ) / (shiftDown n d shift).2 = n / d / 2 ^ shift := by
  unfold shiftDown
  split
  next hshift =>
    obtain ⟨k, rfl⟩ := Int.eq_ofNat_of_zero_le hshift
    refine ⟨Nat.mul_pos hd (Nat.two_pow_pos k), ?_⟩
    simp [div_div]
  next hshift =>
    obtain ⟨k, rfl⟩ : ∃ k : Nat, shift = -k := ⟨(-shift).toNat, by omega⟩
    refine ⟨hd, ?_⟩
    simp [mul_div_right_comm]

/-- A fraction lies between the powers of two that the lengths of its parts tell. -/
theorem fraction_bounds (hn : 0 < n) (hd : 0 < d) :
    (2 : ℚ) ^ ((n.log2 : Int) - d.log2 - 1) ≤ n / d ∧
      (n / d : ℚ) < 2 ^ ((n.log2 : Int) - d.log2 + 1) := by
  have hpos : (0 : ℚ) < d := by exact_mod_cast hd
  have hnLow : (2 : ℚ) ^ (n.log2 : Int) ≤ n := by
    exact_mod_cast Nat.log2_self_le (Nat.ne_of_gt hn)
  have hnHigh : (n : ℚ) < 2 ^ ((n.log2 : Int) + 1) := by exact_mod_cast Nat.lt_log2_self
  have hdLow : (2 : ℚ) ^ (d.log2 : Int) ≤ d := by
    exact_mod_cast Nat.log2_self_le (Nat.ne_of_gt hd)
  have hdHigh : (d : ℚ) < 2 ^ ((d.log2 : Int) + 1) := by exact_mod_cast Nat.lt_log2_self
  rw [le_div_iff₀ hpos, div_lt_iff₀ hpos]
  constructor
  · calc (2 : ℚ) ^ ((n.log2 : Int) - d.log2 - 1) * d
        ≤ 2 ^ ((n.log2 : Int) - d.log2 - 1) * 2 ^ ((d.log2 : Int) + 1) := by gcongr
      _ = 2 ^ (n.log2 : Int) := by
          rw [← zpow_add₀ two_ne_zero]
          congr 1
          omega
      _ ≤ n := hnLow
  · calc (n : ℚ) < 2 ^ ((n.log2 : Int) + 1) := hnHigh
      _ = 2 ^ ((n.log2 : Int) - d.log2 + 1) * 2 ^ (d.log2 : Int) := by
          rw [← zpow_add₀ two_ne_zero]
          congr 1
          omega
      _ ≤ 2 ^ ((n.log2 : Int) - d.log2 + 1) * d := by gcongr

/-- Whether a fraction has 53 bits at an exponent is tested on what it is shifted to. -/
theorem shiftDown_lt_iff (n : Nat) (hd : 0 < d) (e : Int) :
    (shiftDown n d e).1 < leadingBit * (shiftDown n d e).2 ↔ (n / d : ℚ) < 2 ^ (52 + e) := by
  obtain ⟨hpos, hshift⟩ := shiftDown_spec n hd e
  have hposRat : (0 : ℚ) < (shiftDown n d e).2 := by exact_mod_cast hpos
  have hlead : (leadingBit : ℚ) = 2 ^ (52 : Int) := by norm_num [leadingBit]
  rw [zpow_add₀ two_ne_zero, ← hlead, ← div_lt_iff₀ (by positivity), ← hshift,
    div_lt_iff₀ hposRat]
  norm_cast

/-- At the exponent chosen for it a fraction has at most 53 bits, and exactly 53 unless the exponent
is the least one. -/
theorem exponentFor_spec (hn : 0 < n) (hd : 0 < d) :
    (n / d : ℚ) < 2 ^ (53 + exponentFor n d) ∧
      (leastExponent < exponentFor n d → (2 : ℚ) ^ (52 + exponentFor n d) ≤ n / d) := by
  obtain ⟨hlow, hhigh⟩ := fraction_bounds hn hd
  have htest := shiftDown_lt_iff n hd ((n.log2 : Int) - d.log2 - 52)
  have hexponent : ∃ e, exponentFor n d = max leastExponent e ∧
      (n / d : ℚ) < 2 ^ (53 + e) ∧ (2 : ℚ) ^ (52 + e) ≤ n / d := by
    unfold exponentFor
    dsimp only
    split
    next hsmall =>
      refine ⟨_, rfl, (htest.mp hsmall).trans_le (zpow_le_zpow_right₀ one_le_two (by omega)),
        (zpow_le_zpow_right₀ one_le_two (by omega)).trans hlow⟩
    next hlarge =>
      refine ⟨_, rfl, hhigh.trans_le (zpow_le_zpow_right₀ one_le_two (by omega)), ?_⟩
      exact not_lt.mp (mt htest.mpr hlarge)
  obtain ⟨e, heq, hbelow, habove⟩ := hexponent
  rw [heq]
  refine ⟨hbelow.trans_le (zpow_le_zpow_right₀ one_le_two (by omega)), fun hleast => ?_⟩
  have hmax : max leastExponent e = e := by omega
  rwa [hmax]

end Fractions

section Rounding

variable {n d : Nat} {x y : Binary64} {negative : Bool}

/-- The significand that a fraction is rounded to at its exponent, before a carry. -/
def roundedAt (n d : Nat) (e : Int) : Nat := roundQuotient (shiftDown n d e).1 (shiftDown n d e).2

theorem le_roundedAt_iff (hd : 0 < d) (e : Int) :
    2 ^ 53 ≤ roundedAt n d e ↔ (2 ^ 54 - 1 : ℚ) * 2 ^ (e - 1) ≤ n / d := by
  obtain ⟨hpos, hshift⟩ := shiftDown_spec n hd e
  have hposRat : (0 : ℚ) < (shiftDown n d e).2 := by exact_mod_cast hpos
  have hhalf : (2 ^ 54 - 1 : ℚ) * 2 ^ (e - 1) = (2 ^ 54 - 1) / 2 * 2 ^ e := by
    rw [zpow_sub_one₀ two_ne_zero]
    ring
  rw [roundedAt, le_roundQuotient_iff hpos (by decide), hhalf, ← le_div_iff₀ (by positivity),
    ← hshift, le_div_iff₀ hposRat, ← Nat.cast_le (α := ℚ)]
  push_cast
  constructor <;> intro h <;> linarith

theorem roundedAt_le (hn : 0 < n) (hd : 0 < d) : roundedAt n d (exponentFor n d) ≤ 2 ^ 53 := by
  obtain ⟨hpos, hshift⟩ := shiftDown_spec n hd (exponentFor n d)
  have hposRat : (0 : ℚ) < (shiftDown n d (exponentFor n d)).2 := by exact_mod_cast hpos
  have hbelow := (exponentFor_spec hn hd).1
  rw [zpow_add₀ two_ne_zero, ← div_lt_iff₀ (by positivity), ← hshift, div_lt_iff₀ hposRat] at hbelow
  have hlt : (shiftDown n d (exponentFor n d)).1 <
      2 ^ 53 * (shiftDown n d (exponentFor n d)).2 := by exact_mod_cast hbelow
  have hquotient := Nat.div_lt_of_lt_mul (Nat.mul_comm _ _ ▸ hlt)
  rcases roundQuotient_cases (shiftDown n d (exponentFor n d)).1
    (shiftDown n d (exponentFor n d)).2 with ⟨heq, _⟩ | ⟨heq, _⟩
  · rw [roundedAt, heq]
    exact hquotient
  · rw [roundedAt, heq]
    exact hquotient.le

theorem ofFraction?_eq (negative : Bool) (hn : 0 < n) :
    ofFraction? negative n d =
      if roundedAt n d (exponentFor n d) = 2 * leadingBit then
        if greatestExponent < exponentFor n d + 1 then none
        else some ⟨negative, leadingBit, exponentFor n d + 1⟩
      else if greatestExponent < exponentFor n d then none
      else some ⟨negative, roundedAt n d (exponentFor n d), exponentFor n d⟩ := by
  rw [ofFraction?, if_neg (Nat.ne_of_gt hn)]
  dsimp only
  rw [← roundedAt]
  by_cases hcarried : roundedAt n d (exponentFor n d) = 2 * leadingBit
  · simp only [hcarried, ↓reduceIte]
  · simp only [hcarried, ↓reduceIte]

/-- Below the middle past the largest double a fraction has a double, and none from there on. -/
theorem ofFraction?_spec (negative : Bool) (hn : 0 < n) (hd : 0 < d) :
    ((overflow : ℚ) ≤ n / d ∧ ofFraction? negative n d = none) ∨
      ((n / d : ℚ) < overflow ∧ ∃ x, ofFraction? negative n d = some x ∧ x.Bounded ∧
        x.magnitude = roundedAt n d (exponentFor n d) * 2 ^ exponentFor n d) := by
  obtain ⟨hbelow, habove⟩ := exponentFor_spec hn hd
  have hcarry := le_roundedAt_iff (n := n) hd (exponentFor n d)
  have hle := roundedAt_le hn hd
  obtain ⟨hlow, hhigh⟩ := overflow_bounds
  have hmiddle : (2 ^ 54 - 1 : ℚ) * 2 ^ (971 - 1 : Int) = overflow := overflow_eq.symm
  rw [ofFraction?_eq negative hn]
  generalize exponentFor n d = e at *
  generalize roundedAt n d e = r at *
  have hlead : 2 * leadingBit = 2 ^ 53 := rfl
  have hcarried : (leadingBit : ℚ) * 2 ^ (e + 1) = (2 ^ 53 : Nat) * 2 ^ e := by
    rw [zpow_add_one₀ two_ne_zero, ← hlead]
    push_cast
    ring
  rw [hlead]
  rcases lt_trichotomy e 971 with hsmall | rfl | hlarge
  · refine .inr ⟨hbelow.trans ((zpow_le_zpow_right₀ one_le_two (by omega)).trans_lt hlow), ?_⟩
    by_cases heq : r = 2 ^ 53
    · have hgreatest : ¬ greatestExponent < e + 1 := by
        unfold greatestExponent
        omega
      rw [if_pos heq, if_neg hgreatest, heq]
      exact ⟨_, rfl, ⟨(by decide : leadingBit < 2 ^ 53), not_lt.mp hgreatest⟩, hcarried⟩
    · have hgreatest : ¬ greatestExponent < e := by
        unfold greatestExponent
        omega
      rw [if_neg heq, if_neg hgreatest]
      exact ⟨_, rfl, ⟨hle.lt_of_ne heq, not_lt.mp hgreatest⟩, rfl⟩
  · rw [hmiddle] at hcarry
    by_cases heq : r = 2 ^ 53
    · rw [if_pos heq, if_pos (by decide)]
      exact .inl ⟨hcarry.mp heq.ge, rfl⟩
    · rw [if_neg heq, if_neg (by decide)]
      have hless : r < 2 ^ 53 := hle.lt_of_ne heq
      exact .inr ⟨not_le.mp (mt hcarry.mpr hless.not_ge), _, rfl, ⟨hless, le_rfl⟩, rfl⟩
  · have hgreatest : greatestExponent < e := by
      unfold greatestExponent
      omega
    have hleast : leastExponent < e := by
      unfold leastExponent
      omega
    rw [if_pos hgreatest, if_pos (hgreatest.trans (Int.lt_succ e)), ite_self]
    exact .inl ⟨hhigh.le.trans ((zpow_le_zpow_right₀ one_le_two (by omega)).trans (habove hleast)),
      rfl⟩

/-- So a fraction has a double exactly when it is below that middle. -/
theorem isSome_ofFraction?_iff (negative : Bool) (n : Nat) (hd : 0 < d) :
    (ofFraction? negative n d).isSome = true ↔ (n / d : ℚ) < overflow := by
  rcases Nat.eq_zero_or_pos n with rfl | hn
  · have hpos : (0 : ℚ) < overflow := lt_trans (by positivity) overflow_bounds.1
    rw [Nat.cast_zero, zero_div]
    exact iff_of_true rfl hpos
  · rcases ofFraction?_spec negative hn hd with ⟨hlarge, hnone⟩ | ⟨hsmall, x, hsome, _⟩
    · rw [hnone]
      exact iff_of_false nofun (not_lt.mpr hlarge)
    · rw [hsome]
      exact iff_of_true rfl hsmall

theorem bounded_of_ofFraction? (hd : 0 < d) (h : ofFraction? negative n d = some x) :
    x.Bounded := by
  rcases Nat.eq_zero_or_pos n with rfl | hn
  · obtain rfl := Option.some.inj h
    exact ⟨(by decide : 0 < 2 ^ 53), (by decide : leastExponent ≤ greatestExponent)⟩
  · rcases ofFraction?_spec negative hn hd with ⟨_, hnone⟩ | ⟨_, y, hsome, hbounded, _⟩
    · rw [hnone] at h
      cases h
    · obtain rfl := Option.some.inj (h.symm.trans hsome)
      exact hbounded

/-- A double is itself below the middle. -/
theorem Bounded.magnitude_lt (hx : x.Bounded) : x.magnitude < overflow := by
  have hsignificand : (x.significand : ℚ) ≤ 2 ^ 53 - 1 := by
    have hle : (x.significand + 1 : ℚ) ≤ 2 ^ 53 := by exact_mod_cast hx.significand
    linarith
  calc x.magnitude ≤ (2 ^ 53 - 1) * 2 ^ (971 : Int) :=
        mul_le_mul hsignificand (zpow_le_zpow_right₀ one_le_two hx.exponent) (by positivity)
          (by norm_num)
    _ = (2 ^ 54 - 2) * 2 ^ (970 : Int) := by
        rw [show (971 : Int) = 970 + 1 from rfl, zpow_add_one₀ two_ne_zero]
        ring
    _ < (2 ^ 54 - 1) * 2 ^ (970 : Int) := mul_lt_mul_of_pos_right (by norm_num) (by positivity)
    _ = overflow := overflow_eq.symm

end Rounding

section Operations

variable {x y : Binary64} {n d : Nat}

/-- A scaled fraction is a fraction. -/
theorem ofScaled?_eq (negative : Bool) (n : Nat) (hd : 0 < d) (e : Int) :
    ∃ n' d' : Nat, 0 < d' ∧ (n' / d' : ℚ) = n / d * 2 ^ e ∧
      ofScaled? negative n d e = ofFraction? negative n' d' := by
  obtain ⟨hpos, hshift⟩ := shiftDown_spec n hd (-e)
  refine ⟨(shiftDown n d (-e)).1, (shiftDown n d (-e)).2, hpos, ?_, rfl⟩
  rw [hshift, zpow_neg, div_inv_eq_mul]

/-- There is a product exactly when the product of the magnitudes is below the middle. -/
theorem isSome_mul?_iff (x y : Binary64) :
    (x.mul? y).isSome = true ↔ x.magnitude * y.magnitude < overflow := by
  obtain ⟨n, d, hd, hvalue, heq⟩ := ofScaled?_eq (x.negative != y.negative)
    (x.significand * y.significand) Nat.one_pos (x.exponent + y.exponent)
  have hmagnitude : (n / d : ℚ) = x.magnitude * y.magnitude := by
    rw [hvalue, magnitude, magnitude, zpow_add₀ two_ne_zero]
    push_cast
    ring
  rw [mul?, heq, isSome_ofFraction?_iff _ n hd, hmagnitude]

/-- There is a quotient by what is at least one, and it is a double. -/
theorem exists_div? (hx : x.Bounded) (hy : 1 ≤ y.magnitude) :
    ∃ z, x.div? y = some z ∧ z.Bounded := by
  have hpos : 0 < y.significand := by
    refine Nat.pos_of_ne_zero fun hzero => ?_
    norm_num [magnitude, hzero] at hy
  obtain ⟨n, d, hd, hvalue, heq⟩ := ofScaled?_eq (x.negative != y.negative) x.significand hpos
    (x.exponent - y.exponent)
  have hmagnitude : (n / d : ℚ) = x.magnitude / y.magnitude := by
    rw [hvalue, magnitude, magnitude, zpow_sub₀ two_ne_zero]
    ring
  have hnonneg : 0 ≤ x.magnitude := by
    unfold magnitude
    positivity
  have hsome : (x.div? y).isSome = true := by
    rw [div?, heq, isSome_ofFraction?_iff _ n hd, hmagnitude]
    exact (div_le_self hnonneg hy).trans_lt hx.magnitude_lt
  obtain ⟨z, hz⟩ := Option.isSome_iff_exists.mp hsome
  rw [div?, heq] at hz
  exact ⟨z, by rw [div?, heq, hz], bounded_of_ofFraction? hd hz⟩

end Operations

section Naturals

variable {n : Nat}

/-- Rounding leads below no power of two that was reached. -/
theorem two_pow_le_nearest {k : Nat} (h : 2 ^ k ≤ n) : 2 ^ k ≤ nearest n := by
  have hn : n ≠ 0 := Nat.ne_of_gt ((Nat.two_pow_pos k).trans_le h)
  have hself := Nat.log2_self_le hn
  have hcases := roundQuotient_cases n (2 ^ (n.log2 - 52))
  have hsplit : 2 ^ n.log2 = 2 ^ (n.log2 - (n.log2 - 52)) * 2 ^ (n.log2 - 52) := by
    rw [← Nat.pow_add, Nat.sub_add_cancel (Nat.sub_le _ _)]
  refine (Nat.pow_le_pow_right (by decide) ((Nat.le_log2 hn).mpr h)).trans ?_
  rw [hsplit] at hself ⊢
  have hquotient := (Nat.le_div_iff_mul_le (Nat.two_pow_pos _)).mpr hself
  exact Nat.mul_le_mul_right _ (by omega)

theorem nearest_zero : nearest 0 = 0 := rfl

theorem nearest_one : nearest 1 = 1 := by decide

theorem nearest_pos (hn : 0 < n) : 0 < nearest n := two_pow_le_nearest (k := 0) hn

theorem exponentFor_one (hn : 0 < n) : exponentFor n 1 = n.log2 - 52 := by
  obtain ⟨hbelow, habove⟩ := exponentFor_spec hn Nat.one_pos
  have hlow : (2 : ℚ) ^ (n.log2 : Int) ≤ n := by
    exact_mod_cast Nat.log2_self_le (Nat.ne_of_gt hn)
  have hhigh : (n : ℚ) < 2 ^ ((n.log2 : Int) + 1) := by exact_mod_cast Nat.lt_log2_self
  rw [Nat.cast_one, div_one] at hbelow habove
  have hless := (zpow_lt_zpow_iff_right₀ one_lt_two).mp (hlow.trans_lt hbelow)
  have hleast : leastExponent < exponentFor n 1 := by
    unfold leastExponent
    omega
  have hmore := (zpow_lt_zpow_iff_right₀ one_lt_two).mp ((habove hleast).trans_lt hhigh)
  omega

theorem roundedAt_one (n : Nat) :
    (roundedAt n 1 (n.log2 - 52) : ℚ) * 2 ^ ((n.log2 : Int) - 52) = nearest n := by
  unfold roundedAt shiftDown nearest
  split
  next hlong =>
    obtain ⟨k, hk⟩ := Int.eq_ofNat_of_zero_le hlong
    have hsub : n.log2 - 52 = k := by omega
    simp [hk, hsub]
  next hshort =>
    obtain ⟨k, hk⟩ : ∃ k : Nat, (n.log2 : Int) - 52 = -k := ⟨52 - n.log2, by omega⟩
    have hsub : n.log2 - 52 = 0 := by omega
    have hone : ∀ m, roundQuotient m 1 = m := fun m => by
      simpa using roundQuotient_mul m Nat.one_pos
    simp [hk, hsub, hone]

/-- A natural number below the middle has a double, the natural number it is rounded to. -/
theorem exists_ofNat? (hn : n < overflow) :
    ∃ x, ofNat? n = some x ∧ x.Bounded ∧ x.magnitude = nearest n := by
  rcases Nat.eq_zero_or_pos n with rfl | hpos
  · exact ⟨_, rfl, ⟨by decide, by decide⟩, by norm_num [magnitude, nearest, roundQuotient]⟩
  · rcases ofFraction?_spec false hpos Nat.one_pos with ⟨hlarge, _⟩ | ⟨_, x, hx, hbounded, hvalue⟩
    · rw [Nat.cast_one, div_one] at hlarge
      exact absurd hn (not_lt.mpr (by exact_mod_cast hlarge))
    · rw [exponentFor_one hpos, roundedAt_one] at hvalue
      exact ⟨x, hx, hbounded, hvalue⟩

end Naturals

end Extraction.Binary64
