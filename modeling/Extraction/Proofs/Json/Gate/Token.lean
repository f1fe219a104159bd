import Extraction.Proofs.Json.Gate.Language

/-!
# Symbols and numbers

The tests the gate makes on an octet are for certain letters. So each step that
reads on in a number takes one symbol off what may follow, and adds one when
taken backwards.
-/

namespace Extraction.Json.Gate

theorem toNat_toUInt8 {n : Nat} (hn : n < 0x100) : n.toUInt8.toNat = n :=
  Nat.mod_eq_of_lt hn

variable {α : Type} [Alphabet α]

/-- A test that holds of the octets of some ASCII letters and of no others. -/
structure Tests (test : UInt8 → Bool) (letters : List Char) : Prop where
  isAscii : ∀ c ∈ letters, c.toNat < 0x80
  eq_any : ∀ n < 256, test n.toUInt8 = letters.any (·.toNat == n)

theorem tests_space : Tests isSpace blankLetters where
  isAscii := forall_of_all (by decide)
  eq_any := by decide +kernel

theorem tests_digit : Tests isDigit digitLetters where
  isAscii := forall_of_all (by decide)
  eq_any := by decide +kernel

theorem tests_hexDigit : Tests isHexDigit hexLetters where
  isAscii := forall_of_all (by decide)
  eq_any := by decide +kernel

theorem tests_escaped : Tests isEscaped escapeLetters where
  isAscii := forall_of_all (by decide)
  eq_any := by decide +kernel

theorem nonzero_of_digit : ∀ c ∈ digitLetters, c ≠ '0' → c ∈ nonzeroLetters :=
  forall_of_all (by decide)

/-- The symbol of an ASCII character is told by its octet. -/
theorem toNat_eq_octet_iff {c : Char} (hc : c.toNat < 0x80) {a : α} :
    c.toNat = (octet a).toNat ↔ a = ascii c := by
  have htoNat : c.toNat.toUInt8.toNat = c.toNat := toNat_toUInt8 (by omega)
  constructor
  · intro h
    refine Alphabet.ascii_of_octet hc (UInt8.toNat_inj.mp ?_)
    rw [htoNat, h]
  · rintro rfl
    rw [Alphabet.octet_ascii hc, htoNat]

theorem any_toNat_iff {letters : List Char} (h : ∀ c ∈ letters, c.toNat < 0x80) {a : α} :
    letters.any (·.toNat == (octet a).toNat) = true ↔ ∃ c ∈ letters, a = ascii c := by
  rw [List.any_eq_true]
  refine exists_congr fun c => and_congr_right fun hc => ?_
  rw [beq_iff_eq, toNat_eq_octet_iff (h c hc)]

/-- A symbol passes a test when it is that of a letter. -/
theorem Tests.iff_ascii {test : UInt8 → Bool} {letters : List Char} (h : Tests test letters)
    {a : α} : test (octet a) = true ↔ ∃ c ∈ letters, a = ascii c := by
  rw [← any_toNat_iff h.isAscii, ← h.eq_any _ (octet a).toNat_lt, Nat.toUInt8, UInt8.ofNat_toNat]

section Numbers

theorem spellEnd_some (ds : Digits) (exponent : Option Exponent) :
    spellEnd (some ds) exponent = '.' :: (ds.spelled ++ spellEnd none exponent) := rfl

theorem spellEnd_exponent (e : Exponent) :
    spellEnd none (some e) = e.mark.1 :: (spell e.sign.toList ++ e.digits.spelled) := rfl

theorem digitsThen_nil_iff {P : List Char → Prop} : DigitsThen P [] ↔ P [] := by
  constructor
  · rintro ⟨ds, rest, heq, hrest⟩
    obtain ⟨_, rfl⟩ := List.append_eq_nil_iff.mp heq.symm
    exact hrest
  · exact fun h => ⟨[], [], rfl, h⟩

theorem digitsThen_cons_iff {P : List Char → Prop} {c : Char} {t : List Char} :
    DigitsThen P (c :: t) ↔ (c ∈ digitLetters ∧ DigitsThen P t) ∨ P (c :: t) := by
  constructor
  · rintro ⟨ds, rest, heq, hrest⟩
    cases ds with
    | nil =>
        rw [spell_nil, List.nil_append] at heq
        exact .inr (heq ▸ hrest)
    | cons d ds =>
        rw [spell_cons, List.cons_append, List.cons.injEq] at heq
        exact .inl ⟨heq.1 ▸ d.2, ds, rest, heq.2, hrest⟩
  · rintro (⟨hc, ds, rest, rfl, hrest⟩ | h)
    · exact ⟨⟨c, hc⟩ :: ds, rest, rfl, hrest⟩
    · exact ⟨[], c :: t, rfl, h⟩

theorem digitThen_cons_iff {P : List Char → Prop} {c : Char} {t : List Char} :
    DigitThen P (c :: t) ↔ c ∈ digitLetters ∧ DigitsThen P t := by
  constructor
  · rintro ⟨d, rest, heq, hrest⟩
    rw [List.cons.injEq] at heq
    exact ⟨heq.1 ▸ d.2, heq.2 ▸ hrest⟩
  · exact fun ⟨hc, hrest⟩ => ⟨⟨c, hc⟩, t, rfl, hrest⟩

theorem digitThen_iff {P : List Char → Prop} {t : List Char} :
    DigitThen P t ↔ ∃ (ds : Digits) (rest : List Char), t = ds.spelled ++ rest ∧ P rest := by
  constructor
  · rintro ⟨d, _, rfl, ds, rest, rfl, hrest⟩
    exact ⟨⟨d, ds⟩, rest, rfl, hrest⟩
  · rintro ⟨⟨d, ds⟩, rest, rfl, hrest⟩
    exact ⟨d, _, rfl, ds, rest, rfl, hrest⟩

theorem not_digitThen_nil {P : List Char → Prop} : ¬ DigitThen P [] := by
  rintro ⟨_, _, heq, _⟩
  cases heq

theorem wholeEnd_nil : WholeEnd [] := ⟨none, none, rfl⟩

theorem exponentEnd_nil : ExponentEnd [] := ⟨none, rfl⟩

/-- An exponent begins with its mark. -/
theorem exponentEnd_cons_iff {c : Char} {t : List Char} :
    ExponentEnd (c :: t) ↔ c ∈ markLetters ∧ NumberEnd .mark t := by
  constructor
  · rintro ⟨exponent, heq⟩
    cases exponent with
    | none => cases heq
    | some e =>
        rw [spellEnd_exponent, List.cons.injEq] at heq
        obtain ⟨rfl, rfl⟩ := heq
        refine ⟨e.mark.2, e.sign, _, rfl, digitThen_iff.mpr ⟨e.digits, [], ?_, rfl⟩⟩
        rw [List.append_nil]
  · rintro ⟨hc, sign, _, rfl, hdigits⟩
    obtain ⟨ds, _, rfl, rfl⟩ := digitThen_iff.mp hdigits
    refine ⟨some ⟨⟨c, hc⟩, sign, ds⟩, ?_⟩
    rw [spellEnd_exponent, List.append_nil]

/-- What follows the whole digits begins with a point or with the mark of an exponent. -/
theorem wholeEnd_cons_iff {c : Char} {t : List Char} :
    WholeEnd (c :: t) ↔ (c = '.' ∧ NumberEnd .point t) ∨ ExponentEnd (c :: t) := by
  constructor
  · rintro ⟨fraction, exponent, heq⟩
    cases fraction with
    | none => exact .inr ⟨exponent, heq⟩
    | some ds =>
        rw [spellEnd_some, List.cons.injEq] at heq
        exact .inl ⟨heq.1, digitThen_iff.mpr ⟨ds, _, heq.2, exponent, rfl⟩⟩
  · rintro (⟨rfl, hdigits⟩ | ⟨exponent, heq⟩)
    · obtain ⟨ds, _, rfl, exponent, rfl⟩ := digitThen_iff.mp hdigits
      exact ⟨some ds, exponent, spellEnd_some ds exponent⟩
    · exact ⟨none, exponent, heq⟩

/-- Behind a sign there is a zero alone, or a digit and all that follow it. -/
theorem signEnd_cons_iff {c : Char} {t : List Char} :
    NumberEnd .sign (c :: t) ↔
      (c = '0' ∧ WholeEnd t) ∨ (c ∈ nonzeroLetters ∧ DigitsThen WholeEnd t) := by
  constructor
  · rintro ⟨whole, rest, heq, hrest⟩
    cases whole with
    | zero =>
        rw [Whole.spelled, List.singleton_append, List.cons.injEq] at heq
        exact .inl ⟨heq.1, heq.2 ▸ hrest⟩
    | digits first ds =>
        rw [Whole.spelled, List.cons_append, List.cons.injEq] at heq
        exact .inr ⟨heq.1 ▸ first.2, ds, rest, heq.2, hrest⟩
  · rintro (⟨rfl, hrest⟩ | ⟨hc, ds, rest, rfl, hrest⟩)
    · exact ⟨.zero, t, rfl, hrest⟩
    · exact ⟨.digits ⟨c, hc⟩ ds, rest, rfl, hrest⟩

/-- Behind the mark of an exponent there may be a sign before the digits. -/
theorem markEnd_cons_iff {c : Char} {t : List Char} :
    NumberEnd .mark (c :: t) ↔
      (c ∈ digitLetters ∧ DigitsThen (· = []) t) ∨ (c ∈ signLetters ∧ DigitThen (· = []) t) := by
  rw [← digitThen_cons_iff]
  constructor
  · rintro ⟨sign, rest, heq, hrest⟩
    cases sign with
    | none =>
        rw [Option.toList_none, spell_nil, List.nil_append] at heq
        exact .inl (heq ▸ hrest)
    | some sign =>
        rw [Option.toList_some, spell_cons, List.cons_append, List.cons.injEq] at heq
        exact .inr ⟨heq.1 ▸ sign.2, heq.2 ▸ hrest⟩
  · rintro (hrest | ⟨hc, hrest⟩)
    · exact ⟨none, c :: t, rfl, hrest⟩
    · exact ⟨some ⟨c, hc⟩, t, rfl, hrest⟩

theorem not_signEnd_nil : ¬ NumberEnd .sign [] := by
  rintro ⟨whole, rest, heq, _⟩
  cases whole <;> cases heq

theorem not_markEnd_nil : ¬ NumberEnd .mark [] := by
  rintro ⟨sign, rest, heq, hrest⟩
  obtain ⟨_, rfl⟩ := List.append_eq_nil_iff.mp heq.symm
  exact not_digitThen_nil hrest

/-- The letters that go on with a number behind a part of it, and the parts they lead to. -/
def successors : Numeral → List (List Char × Numeral)
  | .sign => [(['0'], .zero), (nonzeroLetters, .integer)]
  | .zero => [(['.'], .point), (markLetters, .mark)]
  | .integer => [(digitLetters, .integer), (['.'], .point), (markLetters, .mark)]
  | .point => [(digitLetters, .fraction)]
  | .fraction => [(digitLetters, .fraction), (markLetters, .mark)]
  | .mark => [(digitLetters, .exponent), (signLetters, .markSign)]
  | .markSign => [(digitLetters, .exponent)]
  | .exponent => [(digitLetters, .exponent)]

/-- A number that is not at its end goes on with one of these letters. -/
theorem numberEnd_cons_iff {part : Numeral} {c : Char} {t : List Char} :
    NumberEnd part (c :: t) ↔ ∃ s ∈ successors part, c ∈ s.1 ∧ NumberEnd s.2 t := by
  cases part with
  | sign =>
      rw [signEnd_cons_iff]
      simp [successors, NumberEnd]
  | zero => simp [NumberEnd, successors, wholeEnd_cons_iff, exponentEnd_cons_iff]
  | integer =>
      simp [NumberEnd, successors, digitsThen_cons_iff, wholeEnd_cons_iff, exponentEnd_cons_iff]
  | point => simp [NumberEnd, successors, digitThen_cons_iff]
  | fraction => simp [NumberEnd, successors, digitsThen_cons_iff, exponentEnd_cons_iff]
  | mark =>
      rw [markEnd_cons_iff]
      simp [successors, NumberEnd]
  | markSign => simp [NumberEnd, successors, digitThen_cons_iff]
  | exponent => simp [NumberEnd, successors, digitsThen_cons_iff]

/-- A number may end where the gate lets it end. -/
theorem numberEnd_nil_iff {part : Numeral} : NumberEnd part [] ↔ part.isComplete = true := by
  cases part with
  | sign => simp [not_signEnd_nil, Numeral.isComplete]
  | zero => simp [NumberEnd, wholeEnd_nil, Numeral.isComplete]
  | integer => simp [NumberEnd, digitsThen_nil_iff, wholeEnd_nil, Numeral.isComplete]
  | point => simp [NumberEnd, not_digitThen_nil, Numeral.isComplete]
  | fraction => simp [NumberEnd, digitsThen_nil_iff, exponentEnd_nil, Numeral.isComplete]
  | mark => simp [not_markEnd_nil, Numeral.isComplete]
  | markSign => simp [NumberEnd, not_digitThen_nil, Numeral.isComplete]
  | exponent => simp [NumberEnd, digitsThen_nil_iff, Numeral.isComplete]

/-- The gate goes on with a number by these letters and by no others. -/
theorem toList_next? (part : Numeral) : ∀ n < 256,
    (part.next? n.toUInt8).toList = (successors part).filterMap fun s =>
      if s.1.any (·.toNat == n) then some s.2 else none := by
  -- Both sides are tables over the octets, so they are compared octet by octet.
  cases part <;> decide +kernel

theorem isAscii_successors (part : Numeral) :
    ∀ s ∈ successors part, ∀ c ∈ s.1, c.toNat < 0x80 := by
  have hall : ∀ s ∈ successors part, s.1.all (fun c => decide (c.toNat < 0x80)) = true := by
    cases part <;> decide
  exact fun s hs => forall_of_all (hall s hs)

theorem next?_eq_some_iff {part next : Numeral} {a : α} :
    part.next? (octet a) = some next ↔
      ∃ s ∈ successors part, s.2 = next ∧ ∃ c ∈ s.1, a = ascii c := by
  have htable := toList_next? part _ (octet a).toNat_lt
  rw [Nat.toUInt8, UInt8.ofNat_toNat] at htable
  rw [← Option.mem_toList, htable, List.mem_filterMap]
  refine exists_congr fun s => and_congr_right fun hs => ?_
  rw [Option.ite_none_right_eq_some, any_toNat_iff (isAscii_successors part s hs), Option.some_inj,
    and_comm]

end Numbers

end Extraction.Json.Gate
