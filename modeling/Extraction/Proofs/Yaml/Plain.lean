import Extraction.Proofs.Json.Numeral
import Extraction.Yaml.Plain

/-!
# Naturals as plain scalars

The decimal digits of a natural stand for this natural, and not for nothing.
-/

namespace Extraction.Yaml

theorem digit?_of_isDigit {c : Char} (h : c.isDigit = true) :
    digit? 10 c = some (c.toNat - '0'.toNat) := by
  have hvalue : c.toNat - '0'.toNat < 10 := by
    simp only [Char.isDigit, Bool.and_eq_true, decide_eq_true_eq] at h
    have hnine : c.toNat ≤ '9'.toNat := h.2
    simp only [Char.reduceToNat] at hnine ⊢
    omega
  simp only [digit?, h, ↓reduceIte, hvalue]

theorem foldlM_digits {digits : List Char} (h : ∀ c ∈ digits, c.isDigit = true) (n : Nat) :
    digits.foldlM (fun n c => (digit? 10 c).map (n * 10 + ·)) n =
      some (Nat.ofDigitChars 10 digits n) := by
  induction digits generalizing n with
  | nil => simp
  | cons c digits ih =>
      obtain ⟨hc, hdigits⟩ := List.forall_mem_cons.mp h
      rw [List.foldlM_cons, digit?_of_isDigit hc, Nat.ofDigitChars_cons, Nat.mul_comm 10 n]
      exact ih hdigits _

theorem hasLeadingZero_of_first {c : Char} (digits : List Char) (hdigit : c.isDigit = true)
    (hzero : c ≠ '0') : hasLeadingZero (c :: digits) = false := by
  have hsigns : c ≠ '-' ∧ c ≠ '+' := by
    constructor
    · rintro rfl
      cases hdigit
    · rintro rfl
      cases hdigit
  simp [hasLeadingZero, hsigns, hzero]

/-- Digits that do not begin with a zero stand for their value. -/
theorem magnitude?_digits {c : Char} {digits : List Char}
    (h : ∀ d ∈ c :: digits, d.isDigit = true) (hzero : c ≠ '0') :
    magnitude? (c :: digits) = some (Nat.ofDigitChars 10 (c :: digits) 0) := by
  have hleading := hasLeadingZero_of_first digits (h c List.mem_cons_self) hzero
  rw [magnitude?, if_neg (Bool.eq_false_iff.mp hleading)]
  · exact foldlM_digits h 0
  · rintro digits ⟨⟩
    exact hzero rfl
  · rintro digits ⟨⟩
    exact hzero rfl
  · rintro digits ⟨⟩
    exact hzero rfl

theorem magnitude?_toDigits (n : Nat) : magnitude? (Nat.toDigits 10 n) = some n := by
  rcases Nat.eq_zero_or_pos n with rfl | hpos
  · rfl
  · obtain ⟨c, digits, htoDigits, hzero⟩ := Json.exists_toDigits_eq_cons hpos
    have hall : ∀ d ∈ c :: digits, d.isDigit = true := fun d hd =>
      Nat.isDigit_of_mem_toDigits (by decide) (by decide) (htoDigits ▸ hd)
    rw [htoDigits, magnitude?_digits hall hzero, ← htoDigits, Nat.ofDigitChars_ten_toDigits]

theorem exists_toDigits_eq_digit (n : Nat) :
    ∃ c digits, Nat.toDigits 10 n = c :: digits ∧ c.isDigit = true := by
  cases h : Nat.toDigits 10 n with
  | nil => exact absurd h Nat.toDigits_ne_nil
  | cons c digits =>
      have hmem : c ∈ Nat.toDigits 10 n := h ▸ List.mem_cons_self
      exact ⟨c, digits, rfl, Nat.isDigit_of_mem_toDigits (by decide) (by decide) hmem⟩

theorem natural?_toDigits {n limit : Nat} (h : n < limit) :
    natural? limit (Nat.toDigits 10 n) = some n := by
  obtain ⟨c, digits, htoDigits, hdigit⟩ := exists_toDigits_eq_digit n
  have hmagnitude := magnitude?_toDigits n
  have hplus : c ≠ '+' := by
    rintro rfl
    cases hdigit
  rw [htoDigits] at hmagnitude ⊢
  simp [natural?, hplus, hmagnitude, h]

theorem not_isNull_toDigits (n : Nat) :
    (Nat.toDigits 10 n).isEmpty = false ∧ isNull (Nat.toDigits 10 n) = false := by
  obtain ⟨c, digits, htoDigits, hdigit⟩ := exists_toDigits_eq_digit n
  rw [htoDigits]
  refine ⟨rfl, ?_⟩
  have hfirst : c ≠ '~' ∧ c ≠ 'n' ∧ c ≠ 'N' := by
    refine ⟨?_, ?_, ?_⟩ <;>
      · rintro rfl
        cases hdigit
  simp [isNull, hfirst]

end Extraction.Yaml
