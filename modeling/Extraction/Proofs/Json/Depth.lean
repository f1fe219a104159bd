import Extraction.Proofs.Json.Complete
import Extraction.Proofs.Json.Sound.Value

/-!
# How deep a text nests

A text with brackets in it has one nesting, which can be counted without reading
the text: outside strings each opening bracket is one level more and each closing
one is one less. And what is read where little depth is left is read alike where
more is left. So a text that is read, and nests no deeper than some depth, is
read as the same value at that depth, wherever it stands.
-/

namespace Extraction.Json

/-! ## More depth changes nothing -/

section Extends

variable {item item' : Reader Value} {s : List Char}

/-- Whatever is read by the one reader is read by the other as well. -/
def Extends (item item' : Reader Value) : Prop :=
  ∀ {s result}, item.run s = .ok result → item'.run s = .ok result

theorem elements_of_extends (h : Extends item item') {read : List Value}
    {result : List Value × List Char} (hread : elements item read s = .ok result) :
    elements item' read s = .ok result := by
  fun_induction elements item read s with
  | case1 => cases hread
  | case2 => cases hread
  | case3 read s value rest hitem after hspace =>
      rw [elements_of_last (h hitem) hspace]
      exact hread
  | case4 => cases hread
  | case5 read s value rest hitem after hnext hspace hclose ih =>
      -- Both readers look at what follows the comma alike, and then go on with the same text.
      have hitem' := h hitem
      have hothers := ih hread
      rw [elements.eq_def]
      grind
  | case6 => cases hread

theorem list_of_extends (h : Extends item item') {result : List Value × List Char}
    (hread : list item s = .ok result) : list item' s = .ok result := by
  unfold list at hread ⊢
  cases hspace : skipSpace s with
  | nil =>
      rw [hspace] at hread
      cases hread
  | cons c rest =>
      simp only [hspace] at hread ⊢
      split
      next hc => rwa [if_pos hc] at hread
      next hc =>
        rw [if_neg hc] at hread
        exact elements_of_extends h hread

theorem member_of_extends (h : Extends item item') {result : (String × Value) × List Char}
    (hread : member item s = .ok result) : member item' s = .ok result := by
  cases s with
  | nil => exact hread
  | cons c rest =>
      simp only [member] at hread ⊢
      split
      next hc =>
        rw [if_pos hc] at hread
        obtain ⟨key, hkey, hread⟩ := ok_of_bind hread
        obtain ⟨after, hcolon, hread⟩ := ok_of_bind hread
        obtain ⟨value, hvalue, hread⟩ := ok_of_bind hread
        simp only [hkey, hcolon, h hvalue, bind, Except.bind]
        exact hread
      next hc => rwa [if_neg hc] at hread

theorem members_of_extends (h : Extends item item') {read : List (String × Value)}
    {result : List (String × Value) × List Char} (hread : members item read s = .ok result) :
    members item' read s = .ok result := by
  fun_induction members item read s with
  | case1 => cases hread
  | case2 => cases hread
  | case3 read s entry rest hentry after hspace =>
      rw [members_of_last (member_of_extends h hentry) hspace]
      exact hread
  | case4 => cases hread
  | case5 read s entry rest hentry after hspace hclose hnext ih =>
      have hentry' := member_of_extends h hentry
      have hothers := ih hread
      rw [members.eq_def]
      grind
  | case6 => cases hread

theorem object_of_extends (h : Extends item item') {result : List (String × Value) × List Char}
    (hread : object item s = .ok result) : object item' s = .ok result := by
  unfold object at hread ⊢
  cases hspace : skipSpace s with
  | nil =>
      rw [hspace] at hread
      cases hread
  | cons c rest =>
      simp only [hspace] at hread ⊢
      split
      next hc => rwa [if_pos hc] at hread
      next hc =>
        rw [if_neg hc] at hread
        exact members_of_extends h hread

/-- A container is read when its items are, so a reader of more items reads more values. -/
theorem extends_valueWith {item item' : Option (Reader Value)}
    (h : ∀ reader ∈ item, ∃ reader' ∈ item', Extends reader reader') :
    Extends (valueWith item) (valueWith item') := by
  intro s result hread
  simp only [valueWith] at hread ⊢
  cases hs : skipSpace s with
  | nil =>
      rw [hs] at hread
      cases hread
  | cons c rest =>
      simp only [hs, valueFrom] at hread ⊢
      split
      next hbracket =>
        rw [if_pos hbracket] at hread
        cases item with
        | none => cases hread
        | some reader =>
            obtain ⟨reader', rfl, hreader⟩ := h reader rfl
            simp only at hread ⊢
            split
            next hc =>
              rw [if_pos hc] at hread
              obtain ⟨inner, hinner, hread⟩ := ok_of_map hread
              rw [list_of_extends hreader hinner, ← hread]
              rfl
            next hc =>
              rw [if_neg hc] at hread
              obtain ⟨inner, hinner, hread⟩ := ok_of_map hread
              rw [object_of_extends hreader hinner, ← hread]
              rfl
      next hbracket => rwa [if_neg hbracket] at hread

/-- What is read at some depth is read alike where containers may nest deeper. -/
theorem extends_value {d d' : Nat} (h : d ≤ d') : Extends (value d) (value d') := by
  induction d generalizing d' with
  | zero =>
      obtain ⟨item, hitem⟩ := exists_valueWith d'
      rw [hitem]
      exact extends_valueWith (by simp)
  | succ d ih =>
      cases d' with
      | zero => cases h
      | succ d' =>
          refine extends_valueWith fun reader hreader => ?_
          cases hreader
          exact ⟨value d', rfl, ih (Nat.le_of_succ_le_succ h)⟩

theorem Reads.deeper {d d' : Nat} {text : List Char} {v : Value}
    (h : Reads (value d).run text v) (hle : d ≤ d') : Reads (value d').run text v := by
  intro rest hends
  obtain ⟨left, hrun, hleft⟩ := h rest hends
  exact ⟨left, extends_value hle hrun, hleft⟩

end Extends

/-! ## The nesting is counted in the text -/

section Nesting

/-- Where counting brackets has got to: between tokens, in a string, or behind a backslash in
one. -/
inductive Place
  | between
  | quoted
  | escaped

/-- How many brackets are open at once, at the most, from where `n` of them are. -/
def mostOpen : Place → Nat → List Char → Nat
  | _, n, [] => n
  | .between, n, c :: s =>
    if c = '"' then mostOpen .quoted n s
    else if c = '[' ∨ c = '\x7b' then mostOpen .between (n + 1) s
    else if c = ']' ∨ c = '\x7d' then max n (mostOpen .between (n - 1) s)
    else mostOpen .between n s
  | .quoted, n, c :: s =>
    if c = '"' then mostOpen .between n s
    else if c = '\\' then mostOpen .escaped n s
    else mostOpen .quoted n s
  | .escaped, n, _ :: s => mostOpen .quoted n s

variable {n : Nat} {s rest : List Char}

theorem le_mostOpen (place : Place) (n : Nat) (s : List Char) : n ≤ mostOpen place n s := by
  fun_induction mostOpen place n s <;> omega

/-- What numbers are spelled in. -/
def numberLetters : List Char := '.' :: (digitLetters ++ markLetters ++ signLetters)

theorem spell_subset {letters : List Char} (cs : List (Among letters)) : spell cs ⊆ letters := by
  intro c hc
  obtain ⟨letter, _, rfl⟩ := List.mem_map.mp hc
  exact letter.2

theorem Digits.spelled_subset (ds : Digits) : ds.spelled ⊆ digitLetters :=
  List.cons_subset.mpr ⟨ds.first.2, spell_subset ds.rest⟩

theorem Whole.spelled_subset (whole : Whole) : whole.spelled ⊆ digitLetters := by
  cases whole with
  | zero => decide
  | digits first rest =>
      have hdigit : nonzeroLetters ⊆ digitLetters := by decide
      exact List.cons_subset.mpr ⟨hdigit first.2, spell_subset rest⟩

theorem Exponent.spelled_subset (e : Exponent) : e.spelled ⊆ numberLetters := by
  have hmark : markLetters ⊆ numberLetters := by decide
  have hsign : signLetters ⊆ numberLetters := by decide
  have hdigit : digitLetters ⊆ numberLetters := by decide
  refine List.cons_subset.mpr ⟨hmark e.mark.2, List.append_subset.mpr ⟨?_, ?_⟩⟩
  · exact List.Subset.trans (spell_subset e.sign.toList) hsign
  · exact List.Subset.trans e.digits.spelled_subset hdigit

theorem Literal.spelled_subset (n : Literal) : n.spelled ⊆ numberLetters := by
  have hdigit : digitLetters ⊆ numberLetters := by decide
  have hwhole := List.Subset.trans n.whole.spelled_subset hdigit
  have hfraction : n.fraction.elim [] (fun ds => '.' :: ds.spelled) ⊆ numberLetters := by
    cases n.fraction with
    | none => exact List.nil_subset _
    | some ds =>
        exact List.cons_subset.mpr ⟨by decide, List.Subset.trans ds.spelled_subset hdigit⟩
  have hexponent : n.exponent.elim [] Exponent.spelled ⊆ numberLetters := by
    cases n.exponent with
    | none => exact List.nil_subset _
    | some e => exact e.spelled_subset
  have hunsigned : n.unsigned ⊆ numberLetters :=
    List.append_subset.mpr ⟨hwhole, List.append_subset.mpr ⟨hfraction, hexponent⟩⟩
  unfold Literal.spelled
  split
  · exact List.cons_subset.mpr ⟨by decide, hunsigned⟩
  · exact hunsigned

/-- A character that is no bracket and begins no string. -/
def IsInert (c : Char) : Prop :=
  c ≠ '"' ∧ ¬ (c = '[' ∨ c = '\x7b') ∧ ¬ (c = ']' ∨ c = '\x7d')

instance : DecidablePred IsInert := fun c => by unfold IsInert; infer_instance

theorem mostOpen_cons_inert {c : Char} (hc : IsInert c) (n : Nat) (rest : List Char) :
    mostOpen .between n (c :: rest) = mostOpen .between n rest := by
  obtain ⟨hmark, hopen, hclose⟩ := hc
  rw [mostOpen, if_neg hmark, if_neg hopen, if_neg hclose]

theorem mostOpen_inert (hs : ∀ c ∈ s, IsInert c) (n : Nat) (rest : List Char) :
    mostOpen .between n (s ++ rest) = mostOpen .between n rest := by
  induction s with
  | nil => rfl
  | cons c s ih =>
      obtain ⟨hc, hs⟩ := List.forall_mem_cons.mp hs
      rw [List.cons_append, mostOpen_cons_inert hc, ih hs]

theorem mostOpen_opening (b : Gate.Bracket) (n : Nat) (rest : List Char) :
    mostOpen .between n (opening b :: rest) = mostOpen .between (n + 1) rest := by
  cases b <;> rfl

theorem mostOpen_closing (b : Gate.Bracket) (n : Nat) (rest : List Char) :
    mostOpen .between (n + 1) (closing b :: rest) = max (n + 1) (mostOpen .between n rest) := by
  cases b <;> rfl

theorem mostOpen_quoted (hs : ∀ c ∈ s, c ≠ '"' ∧ c ≠ '\\') (n : Nat) (rest : List Char) :
    mostOpen .quoted n (s ++ rest) = mostOpen .quoted n rest := by
  induction s with
  | nil => rfl
  | cons c s ih =>
      obtain ⟨⟨hmark, hbackslash⟩, hs⟩ := List.forall_mem_cons.mp hs
      rw [List.cons_append, mostOpen, if_neg hmark, if_neg hbackslash, ih hs]

theorem quoted_of_mem_hexLetters : ∀ c ∈ hexLetters, c ≠ '"' ∧ c ≠ '\\' :=
  forall_of_all (by decide)

/-- A string is passed over up to its closing mark. -/
theorem mostOpen_closeBody (body : Body Char) (n : Nat) (rest : List Char) :
    mostOpen .quoted n (closeBody body ++ rest) = mostOpen .between n rest := by
  induction body with
  | nil => rfl
  | cons piece body ih =>
      rw [closeBody_cons, List.append_assoc, ← ih]
      cases piece with
      | plain c hoctet hmark hbackslash =>
          have hplain := (plain_iff.mp ⟨hoctet, hmark, hbackslash⟩).2
          exact mostOpen_quoted (List.forall_mem_singleton.mpr hplain) n _
      | escaped letter => rfl
      | unit a b c d =>
          -- The letter behind the backslash is passed over as escaped, and four digits are left.
          have hdigits : ∀ digit ∈ [a.1, b.1, c.1, d.1], digit ≠ '"' ∧ digit ≠ '\\' := by
            simp only [List.forall_mem_cons]
            exact ⟨quoted_of_mem_hexLetters a.1 a.2, quoted_of_mem_hexLetters b.1 b.2,
              quoted_of_mem_hexLetters c.1 c.2, quoted_of_mem_hexLetters d.1 d.2, by simp⟩
          exact mostOpen_quoted hdigits n _

theorem mostOpen_string (body : Body Char) (n : Nat) (rest : List Char) :
    mostOpen .between n ('"' :: (closeBody body ++ rest)) = mostOpen .between n rest :=
  mostOpen_closeBody body n rest

theorem mostOpen_space (w : List Blank) (n : Nat) (rest : List Char) :
    mostOpen .between n (writeSpace w ++ rest) = mostOpen .between n rest := by
  have hblank : ∀ c ∈ blankLetters, IsInert c := forall_of_all (by decide)
  refine mostOpen_inert (fun c hc => ?_) n rest
  rw [writeSpace, symbols_eq] at hc
  exact hblank c (spell_subset w hc)

theorem mostOpen_keyword (word : Keyword) (n : Nat) (rest : List Char) :
    mostOpen .between n (word.first :: word.left ++ rest) = mostOpen .between n rest := by
  obtain _ | value := word
  · rfl
  · cases value <;> rfl

theorem mostOpen_literal (literal : Literal) (n : Nat) (rest : List Char) :
    mostOpen .between n (literal.spelled ++ rest) = mostOpen .between n rest := by
  have hletter : ∀ c ∈ numberLetters, IsInert c := forall_of_all (by decide)
  exact mostOpen_inert (fun c hc => hletter c (literal.spelled_subset hc)) n rest

/-- Behind a phrase as many brackets are open as in front of it, and within it as many more as it
nests. -/
theorem mostOpen_written {p : Part} (phrase : Phrase Char p) (n : Nat) (rest : List Char) :
    mostOpen .between n (phrase.written ++ rest) =
      max (n + phrase.nesting) (mostOpen .between n rest) := by
  -- A phrase without brackets counts for nothing, as the rest counts from `n` on.
  have hflat (n : Nat) (rest : List Char) :
      mostOpen .between n rest = max (n + 0) (mostOpen .between n rest) :=
    (Nat.max_eq_right (le_mostOpen .between n rest)).symm
  induction phrase generalizing n rest with
  | keyword word =>
      rw [Phrase.written, symbols_eq, mostOpen_keyword]
      exact hflat n rest
  | number literal =>
      rw [Phrase.written, symbols_eq, mostOpen_literal]
      exact hflat n rest
  | string body =>
      rw [Phrase.written, List.cons_append, ascii_eq, mostOpen_string]
      exact hflat n rest
  | empty b space =>
      rw [Phrase.written, List.cons_append, ascii_eq, ascii_eq, mostOpen_opening, List.append_assoc,
        mostOpen_space, List.singleton_append, mostOpen_closing]
      rfl
  | container b entries ih =>
      rw [Phrase.written, List.cons_append, ascii_eq, ascii_eq, mostOpen_opening, List.append_assoc,
        ih, List.singleton_append, mostOpen_closing, Phrase.nesting]
      omega
  | element before value after ih =>
      rw [Phrase.written, List.append_assoc, List.append_assoc, mostOpen_space, ih, mostOpen_space]
      rfl
  | member before key beforeColon afterColon value after ih =>
      simp only [Phrase.written, List.append_assoc, List.cons_append, ascii_eq, mostOpen_space,
        mostOpen_string, mostOpen_cons_inert (by decide : IsInert ':'), ih]
      rfl
  | last entry ih => exact ih n rest
  | more entry others ih ihothers =>
      rw [Phrase.written, List.append_assoc, List.cons_append, ascii_eq, ih,
        mostOpen_cons_inert (by decide), ihothers, Phrase.nesting]
      omega

theorem Document.mostOpen_written (d : Document Char) :
    mostOpen .between 0 d.written = d.value.nesting := by
  have hend : mostOpen .between 0 (writeSpace d.after) = 0 := by
    simpa [mostOpen] using mostOpen_space d.after 0 []
  rw [Document.written, mostOpen_space, Json.mostOpen_written, hend, Nat.zero_add, Nat.max_zero]

/-- However a text is taken for a document, it nests alike. -/
theorem Document.nesting_eq_of_written {d d' : Document Char} (h : d.written = d'.written) :
    d.value.nesting = d'.value.nesting := by
  rw [← d.mostOpen_written, ← d'.mostOpen_written, h]

end Nesting

/-! ## Where a text is read -/

section Texts

variable {depth : Nat} {t : String} {v : Value}

/-- A text that is a document, in which containers nest at most so deep. -/
def NestsWithin (depth : Nat) (t : String) : Prop :=
  ∃ d : Document Char, d.written = t.toList ∧ d.value.nesting ≤ depth

/-- A document that can be read keeps to the limits where containers may nest as deep as it does. -/
theorem exists_fitting_of_nestsWithin (h : parse t = .ok v) (hnests : NestsWithin depth t) :
    ∃ d : Document Char, d.written = t.toList ∧ d.value.Fits depth := by
  obtain ⟨d, hd, hfits⟩ := exists_fitting_of_parse h
  obtain ⟨d', hd', hnesting⟩ := hnests
  rw [← Document.nesting_eq_of_written (hd.trans hd'.symm)] at hnesting
  exact ⟨d, hd, hfits.literals, hfits.bodies, hnesting⟩

/-- A text that can be read is read as the same value where containers may nest only as deep as they
do in it. -/
theorem reads_of_parse (h : parse t = .ok v) (hnests : NestsWithin depth t)
    (hdepth : depth ≤ deepest) : Reads (value depth).run t.toList v := by
  obtain ⟨d, hd, hfits⟩ := exists_fitting_of_nestsWithin h hnests
  obtain ⟨v', hv'⟩ := readsPhrase hfits
  have hbefore := hv'.before_space (allSpace_writeSpace d.after)
  have hvalue := hbefore.after_space (value_skipSpace depth) (allSpace_writeSpace d.before)
  rw [← Document.written, hd] at hvalue
  -- With all depth there is, the same value is read, and that is the one the document is read as.
  have hparse := parse_of_reads (hvalue.deeper hdepth) allSpace_nil
  rw [List.append_nil, String.ofList_toList, h] at hparse
  cases hparse
  exact hvalue

/-- What is read where containers may nest so deep nests no deeper. -/
theorem nestsWithin_of_reads (h : Reads (value depth).run t.toList v) : NestsWithin depth t := by
  obtain ⟨left, hrun, hleft⟩ := h [] endsNumeral_nil
  rw [List.append_nil] at hrun
  obtain ⟨d, hd, hfits⟩ := exists_fitting_of_run hrun hleft
  exact ⟨d, hd, hfits.nesting⟩

end Texts

end Extraction.Json
