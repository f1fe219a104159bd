import Extraction.Proofs.Json.Gate.Characters
import Extraction.Proofs.Json.Limits
import Extraction.Proofs.Json.RoundTrip

/-!
# Phrases that are read

A phrase that keeps to the limits of nesting, surrogates and numbers is read,
and short integers are among the numbers that do.
-/

namespace Extraction.Json

section Modest

variable {α : Type} [Alphabet α]

/-- An integer of few digits. -/
def Literal.IsShort (n : Literal) : Prop := n.IsInteger ∧ n.wholeLength ≤ 18

/-- A phrase with short integers for numbers and with paired surrogates. -/
structure Phrase.Modest {p : Part} (phrase : Phrase α p) : Prop where
  literals : ∀ n ∈ phrase.literals, n.IsShort
  bodies : ∀ body ∈ phrase.bodies, Paired body

end Modest

section Strings

theorem isSome_hexValue? : ∀ c ∈ hexLetters, (hexValue? c).isSome = true :=
  forall_of_all (by decide)

theorem isSome_shortEscape? : ∀ c ∈ escapeLetters, (shortEscape? c).isSome = true :=
  forall_of_all (by decide)

/-- Four hexadecimal digits have a value. -/
theorem exists_hexUnit (a b c d : HexDigit) :
    ∃ unit, hexGroup? a.1 b.1 c.1 d.1 = some unit ∧
      ∀ rest, hexUnit (a.1 :: b.1 :: c.1 :: d.1 :: rest) = .ok (unit, rest) := by
  obtain ⟨va, ha⟩ := Option.isSome_iff_exists.mp (isSome_hexValue? a.1 a.2)
  obtain ⟨vb, hb⟩ := Option.isSome_iff_exists.mp (isSome_hexValue? b.1 b.2)
  obtain ⟨vc, hc⟩ := Option.isSome_iff_exists.mp (isSome_hexValue? c.1 c.2)
  obtain ⟨vd, hd⟩ := Option.isSome_iff_exists.mp (isSome_hexValue? d.1 d.2)
  have hunit : hexGroup? a.1 b.1 c.1 d.1 = some (((va * 0x10 + vb) * 0x10 + vc) * 0x10 + vd) := by
    simp [hexGroup?, ha, hb, hc, hd]
  exact ⟨_, hunit, fun rest => by simp [hexUnit, hunit]⟩

/-- The escape of a surrogate is one of four hexadecimal digits. -/
theorem exists_digits_of_unit {piece : Piece Char} {unit : Nat} (h : unit ∈ piece.unit?) :
    ∀ rest, ∃ after, piece.written ++ rest = '\\' :: 'u' :: after ∧
      hexUnit after = .ok (unit, rest) := by
  cases piece with
  | unit a b c d =>
      intro rest
      obtain ⟨unit', hunit, hread⟩ := exists_hexUnit a b c d
      obtain rfl : unit' = unit := Option.some.inj (hunit.symm.trans h)
      exact ⟨_, rfl, hread rest⟩
  | _ => cases h

theorem escape_u (rest : List Char) : escape ('u' :: rest) = unicodeEscape rest := by
  have hshort : shortEscape? 'u' = none := by decide
  simp [escape, hshort]

/-- The escape of a unit that is no surrogate is read as one character. -/
theorem unquoteFrom_unit {piece : Piece Char} {unit : Nat} (hunit : unit ∈ piece.unit?)
    (hhigh : isHighSurrogate unit = false) (hlow : isLowSurrogate unit = false)
    (read rest : List Char) :
    unquoteFrom read (piece.written ++ rest) = unquoteFrom (Char.ofNat unit :: read) rest := by
  obtain ⟨after, htext, hafter⟩ := exists_digits_of_unit hunit rest
  rw [htext]
  refine unquoteFrom_escape ?_ read
  simp [escape_u, unicodeEscape, hafter, hlow, hhigh]

/-- The escapes of two surrogates are read as one character. -/
theorem unquoteFrom_pair {high low : Piece Char} {first second : Nat} (hfirst : first ∈ high.unit?)
    (hsecond : second ∈ low.unit?) (hhigh : isHighSurrogate first = true)
    (hlow : isLowSurrogate second = true) (read rest : List Char) :
    unquoteFrom read (high.written ++ (low.written ++ rest)) =
      unquoteFrom (pairedChar first second :: read) rest := by
  have hnotLow : isLowSurrogate first = false := by
    simp only [isHighSurrogate, isLowSurrogate, Bool.and_eq_true, decide_eq_true_eq,
      Bool.and_eq_false_iff, decide_eq_false_iff_not] at hhigh ⊢
    omega
  obtain ⟨after, htext, hafter⟩ := exists_digits_of_unit hfirst (low.written ++ rest)
  obtain ⟨after', htext', hafter'⟩ := exists_digits_of_unit hsecond rest
  rw [htext]
  refine unquoteFrom_escape ?_ read
  simp [escape_u, unicodeEscape, hafter, hnotLow, hhigh, htext', lowSurrogate, hafter', hlow]

theorem unquoteFrom_written_plain {c : Char} (hoctet : 0x20 ≤ octet c) (hmark : octet c ≠ 0x22)
    (hbackslash : octet c ≠ 0x5C) (read rest : List Char) :
    unquoteFrom read ((Piece.plain c hoctet hmark hbackslash).written ++ rest) =
      unquoteFrom (c :: read) rest := by
  obtain ⟨hcontrol, hmark, hbackslash⟩ := plain_iff.mp ⟨hoctet, hmark, hbackslash⟩
  exact unquoteFrom_plain hmark hbackslash hcontrol read rest

/-- A piece that is no surrogate is read as one character. -/
theorem exists_unquoteFrom_single {piece : Piece Char} (hhigh : ¬ piece.IsHigh)
    (hlow : ¬ piece.IsLow) :
    ∃ c, ∀ read rest, unquoteFrom read (piece.written ++ rest) = unquoteFrom (c :: read) rest := by
  cases piece with
  | plain c hoctet hmark hbackslash =>
      exact ⟨c, unquoteFrom_written_plain hoctet hmark hbackslash⟩
  | escaped letter =>
      obtain ⟨c, hc⟩ := Option.isSome_iff_exists.mp (isSome_shortEscape? letter.1 letter.2)
      exact ⟨c, fun read rest => unquoteFrom_escape (escape_of_short hc rest) read⟩
  | unit a b c d =>
      obtain ⟨unit, hunit, _⟩ := exists_hexUnit a b c d
      have hlow : isLowSurrogate unit = false := by
        simpa [Piece.IsLow, Piece.unit?, hunit] using hlow
      have hhigh : isHighSurrogate unit = false := by
        simpa [Piece.IsHigh, Piece.unit?, hunit] using hhigh
      exact ⟨Char.ofNat unit, unquoteFrom_unit hunit hhigh hlow⟩

theorem exists_unquoteFrom_pair {high low : Piece Char} (hhigh : high.IsHigh) (hlow : low.IsLow) :
    ∃ c, ∀ read rest, unquoteFrom read (high.written ++ (low.written ++ rest)) =
      unquoteFrom (c :: read) rest := by
  obtain ⟨first, hfirst, hhigh⟩ := hhigh
  obtain ⟨second, hsecond, hlow⟩ := hlow
  exact ⟨pairedChar first second, unquoteFrom_pair hfirst hsecond hhigh hlow⟩

/-- A string with paired surrogates is read. -/
theorem exists_unquoteFrom {body : Body Char} (h : Paired body) (read : List Char) :
    ∃ text, ∀ rest, unquoteFrom read (closeBody body ++ rest) = .ok (text, rest) := by
  induction h generalizing read with
  | nil => exact ⟨read.reverse, fun rest => unquoteFrom_close read rest⟩
  | single hhigh hlow _ ih =>
      obtain ⟨c, hc⟩ := exists_unquoteFrom_single hhigh hlow
      obtain ⟨text, htext⟩ := ih (c :: read)
      exact ⟨text, fun rest => by rw [closeBody_cons, List.append_assoc, hc, htext]⟩
  | pair hhigh hlow _ ih =>
      obtain ⟨c, hc⟩ := exists_unquoteFrom_pair hhigh hlow
      obtain ⟨text, htext⟩ := ih (c :: read)
      refine ⟨text, fun rest => ?_⟩
      rw [closeBody_cons, closeBody_cons, List.append_assoc, List.append_assoc, hc, htext]

theorem exists_unquote {body : Body Char} (h : Paired body) :
    ∃ text, ∀ rest, unquote.run (closeBody body ++ rest) = .ok (text, rest) := by
  obtain ⟨text, htext⟩ := exists_unquoteFrom h []
  exact ⟨String.ofList text, fun rest => by simp [unquote, htext]⟩

end Strings

section Numbers

/-- The digits of a short integer fit sixty-four bits, so all of them are kept. -/
theorem Literal.IsShort.inRange {n : Literal} (h : n.IsShort) : n.InRange := by
  obtain ⟨⟨_, hexponent⟩, hlength⟩ := h
  have hvalue : Nat.ofDigitChars 10 n.whole.spelled 0 < UInt64.size := by
    refine (ofDigitChars_lt n.whole.isDigit_spelled 0).trans_le ?_
    rw [Nat.zero_add, Nat.one_mul]
    exact (Nat.pow_le_pow_right (by decide) hlength).trans (by decide : 10 ^ 18 ≤ UInt64.size)
  have hkept : n.keptWhole = n.whole.spelled := kept_of_lt hvalue
  have hshift : n.shift ≤ 0 := by
    rw [Literal.shift, hkept, Nat.sub_self]
    omega
  rw [Literal.InRange, hexponent]
  exact inScale_of_nonpos n.significand_lt hshift

end Numbers

section Values

theorem isSpace_blank (blank : Blank) : isSpace blank.1 = true := by
  have hblank : ∀ c ∈ blankLetters, isSpace c = true := forall_of_all (by decide)
  exact hblank blank.1 blank.2

theorem allSpace_writeSpace (w : List Blank) : AllSpace (writeSpace w) := by
  intro c hc
  rw [writeSpace, symbols_eq] at hc
  obtain ⟨blank, _, rfl⟩ := List.mem_map.mp hc
  exact isSpace_blank blank

open Gate (Bracket)

/-- What the entries of a container are read as. -/
def Item : Bracket → Type
  | .array => Value
  | .object => String × Value

/-- Reads one entry of a container, in which containers nest at most so deep. -/
def readItem (d : Nat) : (b : Bracket) → List Char → Except Failure (Item b × List Char)
  | .array => (value d).run
  | .object => memberAfterSpace (value d)

/-- A text is read as the entries of a container, with commas between them. -/
def ReadsEntries (d : Nat) (b : Bracket) (text : List Char) (items : List (Item b)) : Prop :=
  ∃ texts, text = separated texts ∧ texts ≠ [] ∧ List.Forall₂ (Reads (readItem d b)) texts items

/-- Each kind of phrase is read by what reads its kind. -/
def ReadsPhrase (d : Nat) : {p : Part} → Phrase Char p → Prop
  | .value, phrase => ∃ v, Reads (value d).run phrase.written v
  | .entry b, phrase => ∃ item, Reads (readItem d b) phrase.written item
  | .entries b, phrase => ∃ items, ReadsEntries d b phrase.written items

section Scalars

/-- What is read wherever a value may stand is read at any depth. -/
theorem Reads.at_depth {text : List Char} {v : Value}
    (h : ∀ item, Reads (valueWith item).run text v) (d : Nat) : Reads (value d).run text v := by
  obtain ⟨item, hitem⟩ := exists_valueWith d
  rw [hitem]
  exact h item

theorem exists_reads_keyword (word : Keyword) :
    ∃ v, ∀ item, Reads (valueWith item).run (Phrase.keyword word).written v := by
  obtain _ | value := word
  · exact ⟨.null, reads_null⟩
  · cases value
    · exact ⟨.bool false, (reads_bool · false)⟩
    · exact ⟨.bool true, (reads_bool · true)⟩

theorem valueWith_literal (item : Option (Reader Value)) (n : Literal) (s : List Char) :
    (valueWith item).run (n.spelled ++ s) =
      (unsigned n.negative (n.unsigned ++ s)).map fun (number, rest) => (.number number, rest) := by
  cases hsign : n.negative with
  | true =>
      rw [Literal.spelled, if_pos hsign]
      exact valueWith_minus item (n.unsigned ++ s)
  | false =>
      have hdigit : ∃ c tail, n.unsigned = c :: tail ∧ c.isDigit = true := by
        cases hwhole : n.whole with
        | zero => exact ⟨'0', _, by rw [Literal.unsigned, hwhole]; rfl, rfl⟩
        | digits first ds =>
            exact ⟨first.1, _, by rw [Literal.unsigned, hwhole]; rfl,
              (digit_of_nonzero first.1 first.2).1⟩
      obtain ⟨c, tail, hunsigned, hc⟩ := hdigit
      rw [Literal.spelled, hsign, if_neg Bool.false_ne_true, hunsigned]
      exact valueWith_digit item hc (tail ++ s)

theorem exists_reads_number {n : Literal} (h : n.InRange) :
    ∃ v, ∀ item, Reads (valueWith item).run (Phrase.number n).written v := by
  obtain ⟨number, hnumber⟩ := h.exists_unsigned
  refine ⟨.number number, fun item rest hends => ⟨rest, ?_, rfl⟩⟩
  rw [Phrase.written, symbols_eq, valueWith_literal, hnumber rest hends]
  rfl

/-- A string that is read as a text is a value wherever one may stand. -/
theorem reads_spelled_string {body : Body Char} {text : String}
    (h : ∀ rest, unquote.run (closeBody body ++ rest) = .ok (text, rest))
    (item : Option (Reader Value)) :
    Reads (valueWith item).run (Phrase.string body).written (.string text) := by
  intro rest _
  refine ⟨rest, ?_, rfl⟩
  rw [Phrase.written, ascii_eq, List.cons_append, valueWith_mark, h]
  rfl

theorem exists_reads_string {body : Body Char} (h : Paired body) :
    ∃ v, ∀ item, Reads (valueWith item).run (Phrase.string body).written v := by
  obtain ⟨text, htext⟩ := exists_unquote h
  exact ⟨.string text, reads_spelled_string htext⟩

end Scalars

section Containers

variable {d : Nat} {b : Bracket}

/-- The value of a container with these entries. -/
def containerOf : (b : Bracket) → List (Item b) → Value
  | .array, items => .array items
  | .object, entries => .object (Table.ofBindings entries)

/-- A container is read when its entries are. -/
theorem reads_container {texts : List (List Char)} {items : List (Item b)}
    (hitems : List.Forall₂ (Reads (readItem d b)) texts items) {w : List Char} (hw : AllSpace w) :
    Reads (value (d + 1)).run (opening b :: (separated texts ++ (w ++ [closing b])))
      (containerOf b items) := by
  cases b with
  | array => exact reads_array ((isSequence_value d).reads_spaced hitems hw)
  | object => exact reads_object ((isSequence_members (value d)).reads_spaced hitems hw)

theorem reads_empty (space : List Blank) :
    Reads (value (d + 1)).run (Phrase.empty b space : Phrase Char .value).written
      (containerOf b []) :=
  reads_container .nil (allSpace_writeSpace space)

theorem ReadsEntries.reads_container {entries : Phrase Char (.entries b)} {items : List (Item b)}
    (h : ReadsEntries d b entries.written items) :
    Reads (value (d + 1)).run (Phrase.container b entries).written (containerOf b items) := by
  obtain ⟨texts, htexts, _, hitems⟩ := h
  rw [Phrase.written, htexts]
  exact Json.reads_container hitems allSpace_nil

theorem reads_element {inner : Phrase Char .value} {v : Value}
    (h : Reads (value d).run inner.written v) (before after : List Blank) :
    Reads (readItem d .array) (Phrase.element before inner after).written v :=
  (h.before_space (allSpace_writeSpace after)).after_space (value_skipSpace d)
    (allSpace_writeSpace before)

theorem reads_spaced_member {key : Body Char} {name : String} {inner : Phrase Char .value}
    {v : Value} (hkey : ∀ rest, unquote.run (closeBody key ++ rest) = .ok (name, rest))
    (h : Reads (value d).run inner.written v)
    (before beforeColon afterColon after : List Blank) :
    Reads (readItem d .object) (Phrase.member before key beforeColon afterColon inner after).written
      (name, v) := by
  have hvalue := (h.before_space (allSpace_writeSpace after)).after_space (value_skipSpace d)
    (allSpace_writeSpace afterColon)
  have hmember := reads_member_of_key hkey (allSpace_writeSpace beforeColon) hvalue
  exact hmember.after_space (memberAfterSpace_skipSpace _) (allSpace_writeSpace before)

theorem ReadsEntries.last {text : List Char} {item : Item b}
    (h : Reads (readItem d b) text item) : ReadsEntries d b text [item] :=
  ⟨[text], rfl, List.cons_ne_nil _ _, .cons h .nil⟩

theorem ReadsEntries.more {text others : List Char} {item : Item b} {items : List (Item b)}
    (h : Reads (readItem d b) text item) (hothers : ReadsEntries d b others items) :
    ReadsEntries d b (text ++ ',' :: others) (item :: items) := by
  -- The entries behind the comma are separated texts already, and there is at least one.
  obtain ⟨texts, rfl, hne, hitems⟩ := hothers
  obtain ⟨next, texts, rfl⟩ := List.exists_cons_of_ne_nil hne
  exact ⟨text :: next :: texts, rfl, List.cons_ne_nil _ _, .cons h hitems⟩

end Containers

/-- A phrase that keeps to the limits is read, and each entry in it where one level less is
allowed. -/
theorem readsPhrase {p : Part} {phrase : Phrase Char p} {d : Nat} (h : phrase.Fits d) :
    ReadsPhrase d phrase := by
  induction phrase generalizing d with
  | keyword word =>
      obtain ⟨v, hv⟩ := exists_reads_keyword word
      exact ⟨v, .at_depth hv d⟩
  | number n =>
      obtain ⟨v, hv⟩ := exists_reads_number (h.literals n List.mem_cons_self)
      exact ⟨v, .at_depth hv d⟩
  | string body =>
      obtain ⟨v, hv⟩ := exists_reads_string (h.bodies body List.mem_cons_self)
      exact ⟨v, .at_depth hv d⟩
  | empty b space =>
      cases d with
      | zero => cases h.nesting
      | succ d => exact ⟨_, reads_empty space⟩
  | container b entries ih =>
      cases d with
      | zero => cases h.nesting
      | succ d =>
          -- The entries stand one level further in, where one level less is left.
          obtain ⟨items, hitems⟩ :=
            ih ⟨h.literals, h.bodies, Nat.le_of_succ_le_succ h.nesting⟩
          exact ⟨_, hitems.reads_container⟩
  | element before value after ih =>
      obtain ⟨v, hv⟩ := ih ⟨h.literals, h.bodies, h.nesting⟩
      exact ⟨v, reads_element hv before after⟩
  | member before key beforeColon afterColon value after ih =>
      have hbodies := List.forall_mem_cons.mp h.bodies
      obtain ⟨v, hv⟩ := ih ⟨h.literals, hbodies.2, h.nesting⟩
      obtain ⟨text, htext⟩ := exists_unquote hbodies.1
      exact ⟨(text, v), reads_spaced_member htext hv before beforeColon afterColon after⟩
  | last entry ih =>
      obtain ⟨item, hitem⟩ := ih ⟨h.literals, h.bodies, h.nesting⟩
      exact ⟨[item], .last hitem⟩
  | more entry rest ih ihrest =>
      have hliterals := List.forall_mem_append.mp h.literals
      have hbodies := List.forall_mem_append.mp h.bodies
      have hdepths := Nat.max_le.mp h.nesting
      obtain ⟨item, hitem⟩ := ih ⟨hliterals.1, hbodies.1, hdepths.1⟩
      obtain ⟨items, hitems⟩ := ihrest ⟨hliterals.2, hbodies.2, hdepths.2⟩
      exact ⟨item :: items, .more hitem hitems⟩

/-- A document is read when the value in it is. -/
theorem parse_written_of_reads {d : Document Char} {v : Value}
    (h : Reads (value deepest).run d.value.written v) :
    parse (String.ofList d.written) = .ok v := by
  have hvalue := h.after_space (value_skipSpace deepest) (allSpace_writeSpace d.before)
  have hread := parse_of_reads hvalue (allSpace_writeSpace d.after)
  rwa [List.append_assoc] at hread

/-- A document that keeps to the limits is read. -/
theorem exists_parse_of_fits {d : Document Char} (h : d.value.Fits deepest) :
    ∃ v, parse (String.ofList d.written) = .ok v := by
  obtain ⟨v, hv⟩ := readsPhrase h
  exact ⟨v, parse_written_of_reads hv⟩

theorem exists_parse_of_modest {d : Document Char} (h : d.value.Modest)
    (hdepth : d.value.nesting ≤ deepest) : ∃ v, parse (String.ofList d.written) = .ok v :=
  exists_parse_of_fits ⟨fun n hn => (h.literals n hn).inRange, h.bodies, hdepth⟩

end Values

end Extraction.Json
