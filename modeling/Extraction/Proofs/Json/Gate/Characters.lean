import Extraction.Proofs.Json.Gate.Grammar

/-!
# The gate on characters

A character past ASCII has only octets that are past ASCII too. The gate takes
those in inside a string, where they change nothing, and nowhere else. So it
does with all of them what it does with one, and the octets of a text are a
document when the text is one in characters.
-/

namespace Extraction.Json

instance : Alphabet Char where
  ascii c := c
  octet c := if c.toNat < 0x80 then c.toNat.toUInt8 else 0x80
  octet_ascii h := if_pos h
  ascii_of_octet {a c} hc h := by
    have hc' := Gate.toNat_toUInt8 (Nat.lt_trans hc (by decide))
    split at h
    next ha =>
      have ha' := Gate.toNat_toUInt8 (Nat.lt_trans ha (by decide))
      exact Char.toNat_inj.mp (by rw [← ha', h, hc'])
    next =>
      -- The octet that stands for all others is the number of no ASCII character.
      rw [← h] at hc'
      simp only [UInt8.reduceToNat] at hc'
      omega

@[simp] theorem ascii_eq (c : Char) : (ascii c : Char) = c := rfl

@[simp] theorem symbols_eq (s : List Char) : (symbols s : List Char) = s := List.map_id s

/-- The characters that stand for themselves in a string. -/
theorem plain_iff {c : Char} :
    (0x20 ≤ octet c ∧ octet c ≠ 0x22 ∧ octet c ≠ 0x5C) ↔
      (¬ c.toNat < 0x20 ∧ c ≠ '"' ∧ c ≠ '\\') := by
  have hcontrol : 0x20 ≤ octet c ↔ ¬ c.toNat < 0x20 := by
    have hoctet : octet c = if c.toNat < 0x80 then c.toNat.toUInt8 else 0x80 := rfl
    rw [hoctet, UInt8.le_iff_toNat_le]
    split
    next hc =>
      rw [Gate.toNat_toUInt8 (by omega), Nat.not_lt]
      rfl
    next hc =>
      simp only [UInt8.reduceToNat]
      omega
  have hletter (d : Char) (hd : d.toNat < 0x80) : octet c ≠ d.toNat.toUInt8 ↔ c ≠ d := by
    refine not_congr ⟨Alphabet.ascii_of_octet hd, ?_⟩
    rintro rfl
    exact Alphabet.octet_ascii hd
  exact and_congr hcontrol (and_congr (hletter '"' (by decide)) (hletter '\\' (by decide)))

end Extraction.Json

namespace Extraction.Octets

theorem ofChar_of_ascii {c : Char} (hc : c.toNat < 0x80) : ofChar c = [c.toNat.toUInt8] :=
  if_pos hc

theorem ofChar_ne_nil (c : Char) : ofChar c ≠ [] := by
  simp only [ofChar]
  repeat' split
  all_goals exact List.cons_ne_nil _ _

/-- The octets of a character past ASCII are past ASCII. -/
theorem le_of_mem_ofChar {c : Char} (hc : ¬ c.toNat < 0x80) : ∀ o ∈ ofChar c, 0x80 ≤ o := by
  have hmark (n : Nat) (hlow : 0x80 ≤ n) (hhigh : n < 0x100) : 0x80 ≤ n.toUInt8 := by
    rw [UInt8.le_iff_toNat_le, Json.Gate.toNat_toUInt8 hhigh]
    exact hlow
  have hlast : c.toNat < 0x110000 := by
    rcases c.valid with h | h
    · exact Nat.lt_trans h (by decide)
    · exact h.2
  unfold ofChar
  simp only [if_neg hc]
  split
  next =>
    simp only [List.forall_mem_cons]
    exact ⟨hmark _ (by omega) (by omega), hmark _ (by omega) (by omega), nofun⟩
  split
  next =>
    simp only [List.forall_mem_cons]
    exact ⟨hmark _ (by omega) (by omega), hmark _ (by omega) (by omega),
      hmark _ (by omega) (by omega), nofun⟩
  next =>
    simp only [List.forall_mem_cons]
    exact ⟨hmark _ (by omega) (by omega), hmark _ (by omega) (by omega),
      hmark _ (by omega) (by omega), hmark _ (by omega) (by omega), nofun⟩

end Extraction.Octets

namespace Extraction.Json.Gate

variable {state next : State} {o : UInt8}

/-- The letters of a keyword that are still to come are ASCII characters. -/
def State.Ascii (state : State) : Prop :=
  match state.mode with
  | .keyword left => ∀ o ∈ left, o < 0x80
  | _ => True

def State.inString (state : State) : Bool := state.mode matches .string _

theorem Begins.ascii {stack : List Bracket} (h : Begins stack o next) : next.Ascii := by
  cases h with
  | keyword word =>
      intro o ho
      obtain ⟨c, hc, rfl⟩ := List.mem_map.mp ho
      have hascii := word.isAscii_left c hc
      rw [UInt8.lt_iff_toNat_lt, toNat_toUInt8 (by omega)]
      exact hascii
  | container b => cases b <;> trivial
  | _ => trivial

theorem ascii_beginValue {stack : List Bracket} (h : beginValue stack o = some next) :
    next.Ascii :=
  (beginValue_eq_some_iff.mp h).ascii

theorem ascii_ite {test : Bool} {found : State} {otherwise : Option State}
    (h : (if test then some found else otherwise) = some next) (hfound : found.Ascii)
    (hotherwise : otherwise = some next → next.Ascii) : next.Ascii := by
  cases test with
  | true => cases h; exact hfound
  | false => exact hotherwise h

theorem ascii_endValue {stack : List Bracket} (h : endValue stack o = some next) :
    next.Ascii := by
  cases stack with
  | nil => exact ascii_ite h trivial nofun
  | cons b outer =>
      rw [endValue_cons] at h
      have hnext : State.Ascii ⟨nextMode b, b :: outer⟩ := by
        cases b <;> trivial
      exact ascii_ite h trivial fun h => ascii_ite h hnext fun h => ascii_ite h trivial nofun

/-- The gate waits for no letters but those of the keywords. -/
theorem ascii_step (hstate : state.Ascii) (h : step state o = some next) : next.Ascii := by
  obtain ⟨mode, stack⟩ := state
  cases mode with
  | value => exact ascii_ite h trivial ascii_beginValue
  | firstElement => exact ascii_ite h trivial fun h => ascii_ite h trivial ascii_beginValue
  | firstKey =>
      exact ascii_ite h trivial fun h => ascii_ite h trivial fun h => ascii_ite h trivial nofun
  | key => exact ascii_ite h trivial fun h => ascii_ite h trivial nofun
  | colon => exact ascii_ite h trivial fun h => ascii_ite h trivial nofun
  | afterValue => exact ascii_endValue h
  | string isKey =>
      have hclosed : State.Ascii ⟨afterString isKey, stack⟩ := by
        cases isKey <;> trivial
      exact ascii_ite h hclosed fun h => ascii_ite h trivial fun h => ascii_ite h trivial nofun
  | escape isKey => exact ascii_ite h trivial fun h => ascii_ite h trivial nofun
  | hex isKey more => cases more <;> exact ascii_ite h trivial nofun
  | keyword left =>
      cases left with
      | nil => exact ascii_endValue h
      | cons letter left =>
          refine ascii_ite h ?_ nofun
          cases left with
          | nil => trivial
          | cons _ _ => exact (List.forall_mem_cons.mp hstate).2
  | numeral part =>
      simp only [step] at h
      split at h
      next => cases h; trivial
      next => exact ascii_endValue (Option.ite_none_right_eq_some.mp h).2

theorem ne_of_high (ho : 0x80 ≤ o) {k : UInt8} (hk : k < 0x80) : (o == k) = false := by
  rw [beq_eq_false_iff_ne]
  rintro rfl
  exact absurd ho (UInt8.not_le.mpr hk)

theorem Tests.eq_false_of_high {test : UInt8 → Bool} {letters : List Char} (h : Tests test letters)
    (ho : 0x80 ≤ o) : test o = false := by
  have htest := h.eq_any o.toNat o.toNat_lt
  rw [Nat.toUInt8, UInt8.ofNat_toNat] at htest
  rw [htest, List.any_eq_false]
  intro c hc
  have hlow := h.isAscii c hc
  have hhigh : 0x80 ≤ o.toNat := ho
  simp only [beq_iff_eq]
  omega

theorem endValue_high {stack : List Bracket} (ho : 0x80 ≤ o) : endValue stack o = none := by
  have hspace := tests_space.eq_false_of_high ho
  rcases stack with _ | ⟨_ | _, _⟩ <;> simp [endValue, hspace, ne_of_high ho]

theorem next?_high (ho : 0x80 ≤ o) (part : Numeral) : part.next? o = none := by
  have hdigit := tests_digit.eq_false_of_high ho
  cases part <;> simp [Numeral.next?, hdigit, ne_of_high ho]

/-- An octet past ASCII belongs to a string, and does not change the state. -/
theorem step_high (hstate : state.Ascii) (ho : 0x80 ≤ o) :
    step state o = if state.inString then some state else none := by
  have hspace := tests_space.eq_false_of_high ho
  have hdigit := tests_digit.eq_false_of_high ho
  have hhex := tests_hexDigit.eq_false_of_high ho
  have hescaped := tests_escaped.eq_false_of_high ho
  obtain ⟨mode, stack⟩ := state
  cases mode with
  | value => simp [step, State.inString, hspace, beginValue, ne_of_high ho, hdigit]
  | firstElement => simp [step, State.inString, hspace, beginValue, ne_of_high ho, hdigit]
  | firstKey => simp [step, State.inString, hspace, ne_of_high ho]
  | key => simp [step, State.inString, hspace, ne_of_high ho]
  | colon => simp [step, State.inString, hspace, ne_of_high ho]
  | afterValue => simp [step, State.inString, endValue_high ho]
  | string isKey =>
      have hplain : isPlain o = true := by
        have hcontrol : (0x20 : UInt8) ≤ o := UInt8.le_trans (by decide) ho
        simp [isPlain, hcontrol, bne, ne_of_high ho]
      simp [step, State.inString, hplain, ne_of_high ho]
  | escape isKey => simp [step, State.inString, hescaped, ne_of_high ho]
  | hex isKey more => simp [step, State.inString, hhex]
  | keyword left =>
      cases left with
      | nil => simp [step, State.inString, endValue_high ho]
      | cons letter left =>
          have hletter : letter < 0x80 := (List.forall_mem_cons.mp hstate).1
          simp [step, State.inString, ne_of_high ho hletter]
  | numeral part => simp [step, State.inString, next?_high ho, endValue_high ho]

theorem foldlM_same {s : Octets} (hs : ∀ o ∈ s, step state o = some state) :
    s.foldlM step state = some state := by
  induction s with
  | nil => rfl
  | cons o s ih =>
      obtain ⟨ho, hs⟩ := List.forall_mem_cons.mp hs
      rw [List.foldlM_cons, ho]
      exact ih hs

/-- Several octets past ASCII lead where one does. -/
theorem foldlM_high {s : Octets} (hstate : state.Ascii) (hne : s ≠ []) (hs : ∀ o ∈ s, 0x80 ≤ o) :
    s.foldlM step state = step state 0x80 := by
  rw [step_high hstate (Nat.le_refl _)]
  split
  next hstring =>
    refine foldlM_same fun o ho => ?_
    rw [step_high hstate (hs o ho), if_pos hstring]
  next hother =>
    cases s with
    | nil => exact absurd rfl hne
    | cons o s =>
        rw [List.foldlM_cons, step_high hstate (hs o List.mem_cons_self), if_neg hother]
        rfl

theorem foldlM_ofChar (hstate : state.Ascii) (c : Char) :
    (Octets.ofChar c).foldlM step state = step state (octet c) := by
  by_cases hc : c.toNat < 0x80
  · have hoctet : octet c = c.toNat.toUInt8 := if_pos hc
    rw [Octets.ofChar_of_ascii hc, hoctet, List.foldlM_cons]
    cases step state c.toNat.toUInt8 <;> rfl
  · have hoctet : octet c = 0x80 := if_neg hc
    rw [hoctet]
    exact foldlM_high hstate (Octets.ofChar_ne_nil c) (Octets.le_of_mem_ofChar hc)

/-- The gate takes the octets of characters as it takes the characters. -/
theorem foldlM_ofChars (hstate : state.Ascii) (s : List Char) :
    (Octets.ofChars s).foldlM step state = (s.map octet).foldlM step state := by
  induction s generalizing state with
  | nil => rfl
  | cons c s ih =>
      have hofChars : Octets.ofChars (c :: s) = Octets.ofChar c ++ Octets.ofChars s := rfl
      rw [hofChars, List.foldlM_append, foldlM_ofChar hstate, List.map_cons, List.foldlM_cons]
      cases hstep : step state (octet c) with
      | none => rfl
      | some next => exact ih (ascii_step hstate hstep)

end Extraction.Json.Gate

namespace Extraction.Json

/-- The octets of a text are a document when the text is one in characters. -/
theorem isDocument_ofString_iff {t : String} :
    isDocument (Octets.ofString t) = true ↔ ∃ d : Document Char, d.written = t.toList := by
  have hstart : Gate.start.Ascii := trivial
  rw [← Gate.completes_start_iff, ← Gate.accepts_iff_completes, ← Gate.foldlM_ofChars hstart]
  rfl

end Extraction.Json
