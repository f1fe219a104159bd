import Extraction.Proofs.Json.Gate.Token

/-!
# How phrases begin

What completes a document is told here by its first symbol: white space, the
next piece of a string, the entries of a container, and the symbols that begin a
value, which are those the gate takes for the beginning of one.
-/

namespace Extraction.Json.Gate

variable {α : Type} [Alphabet α] {a : α} {s : List α} {stack : List Bracket}

theorem eq_ascii_of_beq (c : Char) {b : UInt8} (hc : c.toNat < 0x80 ∧ c.toNat.toUInt8 = b)
    (h : (octet a == b) = true) : a = ascii c :=
  Alphabet.ascii_of_octet hc.1 (hc.2 ▸ eq_of_beq h)

section Space

variable {P Q : List α → Prop}

theorem spaced_or : Spaced (fun s => P s ∨ Q s) s ↔ Spaced P s ∨ Spaced Q s := by
  constructor
  · rintro ⟨w, rest, heq, h | h⟩
    · exact .inl ⟨w, rest, heq, h⟩
    · exact .inr ⟨w, rest, heq, h⟩
  · rintro (⟨w, rest, heq, h⟩ | ⟨w, rest, heq, h⟩)
    · exact ⟨w, rest, heq, .inl h⟩
    · exact ⟨w, rest, heq, .inr h⟩

theorem spaced_nil_iff : Spaced P [] ↔ P [] := by
  constructor
  · rintro ⟨w, rest, heq, h⟩
    obtain ⟨_, rfl⟩ := List.append_eq_nil_iff.mp heq.symm
    exact h
  · exact fun h => ⟨[], [], rfl, h⟩

/-- White space in front of a text is taken in; a text that begins otherwise begins at once. -/
theorem spaced_cons_iff :
    Spaced P (a :: s) ↔ (isSpace (octet a) = true ∧ Spaced P s) ∨ P (a :: s) := by
  constructor
  · rintro ⟨w, rest, heq, h⟩
    cases w with
    | nil => exact .inr (by rwa [heq])
    | cons c w =>
        rw [writeSpace_cons, List.cons_append, List.cons.injEq] at heq
        obtain ⟨rfl, rfl⟩ := heq
        exact .inl ⟨tests_space.iff_ascii.mpr ⟨c.1, c.2, rfl⟩, w, rest, rfl, h⟩
  · rintro (⟨ha, w, rest, rfl, h⟩ | h)
    · obtain ⟨c, hc, rfl⟩ := tests_space.iff_ascii.mp ha
      exact ⟨⟨c, hc⟩ :: w, rest, rfl, h⟩
    · exact ⟨[], a :: s, rfl, h⟩

/-- A function that finds nothing at any of the four octets of white space. -/
def NoSpace (go : UInt8 → Option State) : Prop :=
  go 0x20 = none ∧ go 0x09 = none ∧ go 0x0A = none ∧ go 0x0D = none

theorem NoSpace.eq_none {go : UInt8 → Option State} (h : NoSpace go) {o : UInt8}
    (ho : isSpace o = true) : go o = none := by
  simp only [isSpace, Bool.or_eq_true, beq_iff_eq] at ho
  rcases ho with ((rfl | rfl) | rfl) | rfl
  · exact h.1
  · exact h.2.1
  · exact h.2.2.1
  · exact h.2.2.2

/-- Where white space may stand, the gate stays as it is while there is some, and then goes on with
what comes. -/
theorem spaced_step (same : State) (go : UInt8 → Option State)
    (hsame : ∀ s : List α, Completes same s ↔ Spaced P s) (hspace : NoSpace go)
    (hgo : P (a :: s) ↔ ∃ next, go (octet a) = some next ∧ Completes next s) :
    Completes same (a :: s) ↔
      ∃ next, (if isSpace (octet a) then some same else go (octet a)) = some next ∧
        Completes next s := by
  rw [hsame, spaced_cons_iff, hgo]
  cases ha : isSpace (octet a) with
  | true => simp [hspace.eq_none ha, hsame]
  | false => simp

end Space

section Strings

variable {P : List α → Prop}

theorem stringFrom_piece (piece : Piece α) {rest : List α} (h : StringFrom P rest) :
    StringFrom P (piece.written ++ rest) := by
  obtain ⟨body, rest, rfl, h⟩ := h
  exact ⟨piece :: body, rest, by rw [closeBody_cons, List.append_assoc], h⟩

theorem not_stringFrom_nil : ¬ StringFrom P [] := by
  rintro ⟨body, rest, heq, _⟩
  simp [closeBody] at heq

/-- A string goes on with its closing mark, with a symbol that stands for itself, or with an
escape. -/
theorem stringFrom_cons_iff :
    StringFrom P (a :: s) ↔
      (a = ascii '"' ∧ P s) ∨ (isPlain (octet a) = true ∧ StringFrom P s) ∨
      (a = ascii '\\' ∧ EscapeFrom P s) := by
  constructor
  · rintro ⟨body, rest, heq, h⟩
    cases body with
    | nil =>
        rw [closeBody_nil, List.singleton_append, List.cons.injEq] at heq
        exact .inl ⟨heq.1, heq.2 ▸ h⟩
    | cons piece body =>
        rw [closeBody_cons, List.append_assoc] at heq
        have hrest : StringFrom P (closeBody body ++ rest) := ⟨body, rest, rfl, h⟩
        cases hpiece : piece with
        | plain b hcontrol hmark hbackslash =>
            rw [hpiece, Piece.written, List.singleton_append, List.cons.injEq] at heq
            obtain ⟨rfl, rfl⟩ := heq
            refine .inr (.inl ⟨?_, hrest⟩)
            simp [isPlain, hcontrol, hmark, hbackslash]
        | escaped letter =>
            have ha : a = ascii '\\' := by
              rw [hpiece] at heq
              exact (List.cons.inj heq).1
            exact .inr (.inr ⟨ha, piece, _, ha ▸ heq, hrest⟩)
        | unit d₁ d₂ d₃ d₄ =>
            have ha : a = ascii '\\' := by
              rw [hpiece] at heq
              exact (List.cons.inj heq).1
            exact .inr (.inr ⟨ha, piece, _, ha ▸ heq, hrest⟩)
  · rintro (⟨rfl, h⟩ | ⟨hplain, h⟩ | ⟨rfl, piece, rest, heq, h⟩)
    · exact ⟨[], s, rfl, h⟩
    · simp only [isPlain, Bool.and_eq_true, decide_eq_true_eq, bne_iff_ne] at hplain
      obtain ⟨⟨hcontrol, hmark⟩, hbackslash⟩ := hplain
      exact stringFrom_piece (.plain a hcontrol hmark hbackslash) h
    · rw [heq]
      exact stringFrom_piece piece h

end Strings

section Containers

variable {b : Bracket}

/-- What may come next in a container that has been opened just now. -/
def firstMode : Bracket → Mode
  | .array => .firstElement
  | .object => .firstKey

/-- What may come next in a container behind a comma. -/
def nextMode : Bracket → Mode
  | .array => .value
  | .object => .key

/-- The entries of a container end with its bracket, which comes behind the last one. -/
theorem exists_entries_iff :
    (∃ (entries : Phrase α (.entries b)) (rest : List α),
      s = entries.written ++ ascii (closing b) :: rest ∧ After stack rest) ↔
    ∃ (entry : Phrase α (.entry b)) (rest : List α),
      s = entry.written ++ rest ∧ EntryEnd b (After stack) rest := by
  constructor
  · rintro ⟨entries, rest, rfl, hrest⟩
    cases entries with
    | last entry => exact ⟨entry, _, rfl, .inl ⟨rest, rfl, hrest⟩⟩
    | more entry others =>
        refine ⟨entry, _, ?_, .inr ⟨others, rest, rfl, hrest⟩⟩
        rw [Phrase.written, List.append_assoc, List.cons_append]
  · rintro ⟨entry, _, rfl, ⟨rest, rfl, hrest⟩ | ⟨others, rest, rfl, hrest⟩⟩
    · exact ⟨.last entry, rest, rfl, hrest⟩
    · refine ⟨.more entry others, rest, ?_, hrest⟩
      rw [Phrase.written, List.append_assoc, List.cons_append]

/-- Behind a comma there are more entries. -/
theorem completes_nextMode_iff :
    Completes ⟨nextMode b, b :: stack⟩ s ↔
      ∃ (entries : Phrase α (.entries b)) (rest : List α),
        s = entries.written ++ ascii (closing b) :: rest ∧ After stack rest := by
  rw [exists_entries_iff]
  cases b with
  | array =>
      constructor
      · rintro ⟨before, _, rfl, value, _, rfl, after, rest, rfl, hend⟩
        exact ⟨.element before value after, rest, by simp [Phrase.written], hend⟩
      · rintro ⟨entry, rest, rfl, hend⟩
        cases entry with
        | element before value after =>
            exact ⟨before, _, by simp [Phrase.written], value, _, rfl, after, rest, rfl, hend⟩
  | object =>
      constructor
      · rintro ⟨before, _, rfl, _, rfl, key, _, rfl, beforeColon, _, rfl, _, rfl, afterColon, _,
          rfl, value, _, rfl, after, rest, rfl, hend⟩
        exact ⟨.member before key beforeColon afterColon value after, rest,
          by simp [Phrase.written], hend⟩
      · rintro ⟨entry, rest, rfl, hend⟩
        cases entry with
        | member before key beforeColon afterColon value after =>
            exact ⟨before, _, by simp [Phrase.written], _, rfl, key, _, rfl, beforeColon, _, rfl, _,
              rfl, afterColon, _, rfl, value, _, rfl, after, rest, rfl, hend⟩

/-- In a container that has been opened just now the bracket may come at once. -/
theorem completes_firstMode_iff :
    Completes ⟨firstMode b, b :: stack⟩ s ↔
      (∃ (space : List Blank) (rest : List α),
        s = writeSpace space ++ ascii (closing b) :: rest ∧ After stack rest) ∨
      Completes ⟨nextMode b, b :: stack⟩ s := by
  have hclose : Spaced (CloseFrom b (b :: stack)) s ↔ ∃ (space : List Blank) (rest : List α),
      s = writeSpace space ++ ascii (closing b) :: rest ∧ After stack rest := by
    constructor
    · rintro ⟨space, _, rfl, rest, rfl, hrest⟩
      exact ⟨space, rest, rfl, hrest⟩
    · rintro ⟨space, rest, rfl, hrest⟩
      exact ⟨space, _, rfl, rest, rfl, hrest⟩
  rw [← hclose]
  cases b with
  | array => exact spaced_or
  | object => exact spaced_or

/-- An opening bracket and what may follow it are a container and what may follow that. -/
theorem valueFrom_of_firstMode (h : Completes ⟨firstMode b, b :: stack⟩ s) :
    ValueFrom stack (ascii (opening b) :: s) := by
  rcases completes_firstMode_iff.mp h with ⟨space, rest, rfl, hrest⟩ | h
  · exact ⟨.empty b space, rest, by simp [Phrase.written], hrest⟩
  · obtain ⟨entries, rest, rfl, hrest⟩ := completes_nextMode_iff.mp h
    exact ⟨.container b entries, rest, by simp [Phrase.written], hrest⟩

end Containers

section Values

/-- What a symbol that begins a value leads to. -/
inductive Begins (stack : List Bracket) : α → State → Prop
  | string : Begins stack (ascii '"') ⟨.string false, stack⟩
  | container (b : Bracket) : Begins stack (ascii (opening b)) ⟨firstMode b, b :: stack⟩
  | keyword (word : Keyword) :
      Begins stack (ascii word.first) ⟨.keyword (word.left.map (·.toNat.toUInt8)), stack⟩
  | negative : Begins stack (ascii '-') ⟨.numeral .sign, stack⟩
  | zero : Begins stack (ascii '0') ⟨.numeral .zero, stack⟩
  | digit {c : Char} : c ∈ nonzeroLetters → Begins stack (ascii c) ⟨.numeral .integer, stack⟩

/-- The gate takes a symbol for the beginning of a value as it is told above. -/
theorem beginValue_eq_some_iff {next : State} :
    beginValue stack (octet a) = some next ↔ Begins stack a next := by
  constructor
  · intro h
    unfold beginValue at h
    split at h
    next ha =>
      obtain rfl := eq_ascii_of_beq '"' (by decide) ha
      cases h
      exact .string
    split at h
    next ha =>
      obtain rfl := eq_ascii_of_beq '[' (by decide) ha
      cases h
      exact .container .array
    split at h
    next ha =>
      obtain rfl := eq_ascii_of_beq '\x7b' (by decide) ha
      cases h
      exact .container .object
    split at h
    next ha =>
      obtain rfl := eq_ascii_of_beq 'n' (by decide) ha
      cases h
      exact .keyword .null
    split at h
    next ha =>
      obtain rfl := eq_ascii_of_beq 't' (by decide) ha
      cases h
      exact .keyword (.bool true)
    split at h
    next ha =>
      obtain rfl := eq_ascii_of_beq 'f' (by decide) ha
      cases h
      exact .keyword (.bool false)
    split at h
    next ha =>
      obtain rfl := eq_ascii_of_beq '-' (by decide) ha
      cases h
      exact .negative
    split at h
    next ha =>
      obtain rfl := eq_ascii_of_beq '0' (by decide) ha
      cases h
      exact .zero
    split at h
    next hzero ha =>
      obtain ⟨c, hc, rfl⟩ := tests_digit.iff_ascii.mp ha
      cases h
      refine .digit (nonzero_of_digit c hc ?_)
      rintro rfl
      simp [Alphabet.octet_ascii] at hzero
    next => cases h
  · intro h
    cases h with
    | string => simp [beginValue, Alphabet.octet_ascii]
    | container b => cases b <;> simp [beginValue, Alphabet.octet_ascii, opening, firstMode]
    | keyword word =>
        obtain _ | value := word
        · simp [beginValue, Alphabet.octet_ascii, Keyword.first, Keyword.left]
        · cases value <;> simp [beginValue, Alphabet.octet_ascii, Keyword.first, Keyword.left]
    | negative => simp [beginValue, Alphabet.octet_ascii]
    | zero => simp [beginValue, Alphabet.octet_ascii]
    | digit hc =>
        simp only [nonzeroLetters, List.mem_cons, List.not_mem_nil, or_false] at hc
        rcases hc with rfl | rfl | rfl | rfl | rfl | rfl | rfl | rfl | rfl <;>
          simp [beginValue, Alphabet.octet_ascii, isDigit]

theorem map_octet_eq_iff {letters : List Char} (h : ∀ c ∈ letters, c.toNat < 0x80) {t : List α} :
    t.map octet = letters.map (·.toNat.toUInt8) ↔ t = symbols letters := by
  induction letters generalizing t with
  | nil => simp
  | cons c letters ih =>
      obtain ⟨hc, hletters⟩ := List.forall_mem_cons.mp h
      cases t with
      | nil => simp
      | cons a t =>
          rw [List.map_cons, List.map_cons, List.cons.injEq, symbols_cons, List.cons.injEq,
            ih hletters]
          refine and_congr_left fun _ => ?_
          exact ⟨Alphabet.ascii_of_octet hc, fun ha => ha ▸ Alphabet.octet_ascii hc⟩

/-- The letters of a keyword behind the first one, and what may follow it. -/
theorem completes_keyword_iff {word : Keyword} :
    Completes ⟨.keyword (word.left.map (·.toNat.toUInt8)), stack⟩ s ↔
      ∃ rest, s = symbols word.left ++ rest ∧ After stack rest := by
  constructor
  · rintro ⟨_, t, rest, rfl, ht, hrest⟩
    exact ⟨rest, by rw [(map_octet_eq_iff (word.isAscii_left)).mp ht], hrest⟩
  · rintro ⟨rest, rfl, hrest⟩
    refine ⟨?_, _, rest, rfl, (map_octet_eq_iff (word.isAscii_left)).mpr rfl, hrest⟩
    simp [symbols, Keyword.left_ne_nil]

/-- What follows a sign is a number without its sign. -/
theorem numberEnd_sign_iff {t : List Char} (negative : Bool) :
    NumberEnd .sign t ↔ ∃ n : Literal, n.negative = negative ∧ t = n.unsigned := by
  constructor
  · rintro ⟨whole, _, rfl, fraction, exponent, rfl⟩
    exact ⟨⟨negative, whole, fraction, exponent⟩, rfl, rfl⟩
  · rintro ⟨n, _, rfl⟩
    exact ⟨n.whole, _, rfl, n.fraction, n.exponent, rfl⟩

/-- A number begins with a sign or a digit, and goes on as the gate lets it. -/
theorem number_cons_iff :
    (∃ (n : Literal) (rest : List α), a :: s = symbols n.spelled ++ rest ∧ After stack rest) ↔
      (a = ascii '-' ∧ Completes ⟨.numeral .sign, stack⟩ s) ∨
      (a = ascii '0' ∧ Completes ⟨.numeral .zero, stack⟩ s) ∨
      (∃ c ∈ nonzeroLetters, a = ascii c ∧ Completes ⟨.numeral .integer, stack⟩ s) := by
  constructor
  · rintro ⟨n, rest, heq, hrest⟩
    cases hsign : n.negative with
    | true =>
        rw [Literal.spelled, if_pos hsign, symbols_cons, List.cons_append, List.cons.injEq] at heq
        exact .inl ⟨heq.1, _, rest, heq.2, (numberEnd_sign_iff true).mpr ⟨n, hsign, rfl⟩, hrest⟩
    | false =>
        have hend := (numberEnd_sign_iff false).mpr ⟨n, hsign, rfl⟩
        rw [Literal.spelled, hsign, if_neg Bool.false_ne_true] at heq
        cases hunsigned : n.unsigned with
        | nil => exact absurd (hunsigned ▸ hend) not_signEnd_nil
        | cons c t =>
            rw [hunsigned, symbols_cons, List.cons_append, List.cons.injEq] at heq
            rw [hunsigned] at hend
            obtain ⟨rfl, rfl⟩ := heq
            rcases signEnd_cons_iff.mp hend with ⟨rfl, hzero⟩ | ⟨hc, hdigits⟩
            · exact .inr (.inl ⟨rfl, t, rest, rfl, hzero, hrest⟩)
            · exact .inr (.inr ⟨c, hc, rfl, t, rest, rfl, hdigits, hrest⟩)
  · rintro (⟨rfl, t, rest, rfl, hend, hrest⟩ | ⟨rfl, t, rest, rfl, hend, hrest⟩ |
      ⟨c, hc, rfl, t, rest, rfl, hend, hrest⟩)
    · obtain ⟨n, hsign, rfl⟩ := (numberEnd_sign_iff true).mp hend
      exact ⟨n, rest, by simp [Literal.spelled, hsign], hrest⟩
    · have hsigned : NumberEnd .sign ('0' :: t) := signEnd_cons_iff.mpr (.inl ⟨rfl, hend⟩)
      obtain ⟨n, hsign, ht⟩ := (numberEnd_sign_iff false).mp hsigned
      exact ⟨n, rest, by simp [Literal.spelled, hsign, ← ht], hrest⟩
    · have hsigned : NumberEnd .sign (c :: t) := signEnd_cons_iff.mpr (.inr ⟨hc, hend⟩)
      obtain ⟨n, hsign, ht⟩ := (numberEnd_sign_iff false).mp hsigned
      exact ⟨n, rest, by simp [Literal.spelled, hsign, ← ht], hrest⟩

/-- A value begins with a symbol that the gate takes for the beginning of one. -/
theorem valueFrom_cons_iff :
    ValueFrom stack (a :: s) ↔ ∃ next, Begins stack a next ∧ Completes next s := by
  constructor
  · rintro ⟨value, rest, heq, hrest⟩
    cases value with
    | keyword word =>
        rw [Phrase.written, symbols_cons, List.cons_append, List.cons.injEq] at heq
        obtain ⟨rfl, rfl⟩ := heq
        exact ⟨_, .keyword word, completes_keyword_iff.mpr ⟨rest, rfl, hrest⟩⟩
    | number n =>
        rcases number_cons_iff.mp ⟨n, rest, heq, hrest⟩ with
          ⟨rfl, h⟩ | ⟨rfl, h⟩ | ⟨c, hc, rfl, h⟩
        · exact ⟨_, .negative, h⟩
        · exact ⟨_, .zero, h⟩
        · exact ⟨_, .digit hc, h⟩
    | string body =>
        rw [Phrase.written, List.cons_append, List.cons.injEq] at heq
        obtain ⟨rfl, rfl⟩ := heq
        exact ⟨_, .string, body, rest, rfl, hrest⟩
    | empty b space =>
        rw [Phrase.written, List.cons_append, List.cons.injEq] at heq
        obtain ⟨rfl, rfl⟩ := heq
        refine ⟨_, .container b, completes_firstMode_iff.mpr (.inl ⟨space, rest, ?_, hrest⟩)⟩
        rw [List.append_assoc, List.singleton_append]
    | container b entries =>
        rw [Phrase.written, List.cons_append, List.cons.injEq] at heq
        obtain ⟨rfl, rfl⟩ := heq
        refine ⟨_, .container b, completes_firstMode_iff.mpr (.inr ?_)⟩
        refine completes_nextMode_iff.mpr ⟨entries, rest, ?_, hrest⟩
        rw [List.append_assoc, List.singleton_append]
  · rintro ⟨next, hbegins, hnext⟩
    cases hbegins with
    | string =>
        obtain ⟨body, rest, rfl, hrest⟩ := hnext
        exact ⟨.string body, rest, rfl, hrest⟩
    | container b => exact valueFrom_of_firstMode hnext
    | keyword word =>
        obtain ⟨rest, rfl, hrest⟩ := completes_keyword_iff.mp hnext
        exact ⟨.keyword word, rest, rfl, hrest⟩
    | negative =>
        obtain ⟨n, rest, heq, hrest⟩ := number_cons_iff.mpr (.inl ⟨rfl, hnext⟩)
        exact ⟨.number n, rest, heq, hrest⟩
    | zero =>
        obtain ⟨n, rest, heq, hrest⟩ := number_cons_iff.mpr (.inr (.inl ⟨rfl, hnext⟩))
        exact ⟨.number n, rest, heq, hrest⟩
    | digit hc =>
        obtain ⟨n, rest, heq, hrest⟩ := number_cons_iff.mpr (.inr (.inr ⟨_, hc, rfl, hnext⟩))
        exact ⟨.number n, rest, heq, hrest⟩

end Values

end Extraction.Json.Gate
