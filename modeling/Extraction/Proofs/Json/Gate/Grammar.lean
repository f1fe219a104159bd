import Extraction.Proofs.Json.Gate.Value

/-!
# The gate and the grammar

A text with a symbol in front completes a document from a state exactly when the
gate takes the symbol in and the text completes a document from the state it is
in then. So the gate lets through what completes a document from the start, and
that is what the grammar has.
-/

namespace Extraction.Json.Gate

variable {α : Type} [Alphabet α] {a : α} {s : List α} {stack : List Bracket}

/-- Where the gate looks for an ASCII character first, that character is taken in, or the text is
what is looked for otherwise. -/
theorem exists_ite_iff (c : Char) {o : UInt8} {found : State} {otherwise : Option State}
    (hc : c.toNat < 0x80 ∧ c.toNat.toUInt8 = o) (hnone : octet a = o → otherwise = none) :
    (∃ next, (if octet a == o then some found else otherwise) = some next ∧ Completes next s) ↔
      (a = ascii c ∧ Completes found s) ∨ ∃ next, otherwise = some next ∧ Completes next s := by
  have ha : octet a = o ↔ a = ascii c := by
    obtain ⟨hlt, rfl⟩ := hc
    exact ⟨Alphabet.ascii_of_octet hlt, fun h => h ▸ Alphabet.octet_ascii hlt⟩
  rw [← ha]
  by_cases h : octet a = o
  · simp [h, hnone h]
  · simp [h]

section After

variable {b : Bracket} {outer : List Bracket}

/-- What an octet that is no white space leads to behind an entry of a container. -/
def endEntry (b : Bracket) (outer : List Bracket) (o : UInt8) : Option State :=
  if o == 0x2C then some ⟨nextMode b, b :: outer⟩
  else if o == (closing b).toNat.toUInt8 then some ⟨.afterValue, outer⟩
  else none

theorem endValue_cons {o : UInt8} :
    endValue (b :: outer) o =
      if isSpace o then some ⟨.afterValue, b :: outer⟩ else endEntry b outer o := by
  cases b <;> rfl

theorem toNat_closing_lt : (closing b).toNat < 0x80 := by
  cases b <;> decide

/-- Behind an entry stands a comma, or the closing bracket. -/
theorem entryEnd_cons_iff :
    EntryEnd b (After outer) (a :: s) ↔
      (a = ascii ',' ∧ Completes ⟨nextMode b, b :: outer⟩ s) ∨
      (a = ascii (closing b) ∧ After outer s) := by
  rw [completes_nextMode_iff]
  constructor
  · rintro (⟨rest, heq, hrest⟩ | ⟨entries, rest, heq, hrest⟩)
    · rw [List.cons.injEq] at heq
      exact .inr ⟨heq.1, heq.2 ▸ hrest⟩
    · rw [List.cons.injEq] at heq
      exact .inl ⟨heq.1, entries, rest, heq.2, hrest⟩
  · rintro (⟨rfl, entries, rest, rfl, hrest⟩ | ⟨rfl, hrest⟩)
    · exact .inr ⟨entries, rest, rfl, hrest⟩
    · exact .inl ⟨s, rfl, hrest⟩

theorem entryEnd_step :
    EntryEnd b (After outer) (a :: s) ↔
      ∃ next, endEntry b outer (octet a) = some next ∧ Completes next s := by
  have hclosing : octet a = 0x2C → (if octet a == (closing b).toNat.toUInt8
      then some ⟨.afterValue, outer⟩ else none) = (none : Option State) := by
    intro h
    rw [h]
    cases b <;> rfl
  unfold endEntry
  rw [entryEnd_cons_iff, exists_ite_iff ',' (by decide) hclosing,
    exists_ite_iff (closing b) ⟨toNat_closing_lt, rfl⟩ (fun _ => rfl)]
  simp [Completes]

theorem noSpace_endEntry : NoSpace (endEntry b outer) := by
  cases b <;> exact ⟨rfl, rfl, rfl, rfl⟩

/-- What may stand behind a value that is complete. -/
theorem after_step :
    After stack (a :: s) ↔ ∃ next, endValue stack (octet a) = some next ∧ Completes next s := by
  cases stack with
  | nil =>
      exact spaced_step ⟨.afterValue, []⟩ (fun _ => none) (fun _ => Iff.rfl) ⟨rfl, rfl, rfl, rfl⟩
        (by simp)
  | cons b outer =>
      simp only [endValue_cons]
      exact spaced_step ⟨.afterValue, b :: outer⟩ _ (fun _ => Iff.rfl) noSpace_endEntry
        entryEnd_step

/-- What may begin behind a value. -/
def followers : List Char := blankLetters ++ [',', ']', '\x7d']

/-- What may follow a value begins with white space, a comma or a closing bracket. -/
theorem exists_follower (h : After stack (a :: s)) : ∃ c ∈ followers, a = ascii c := by
  have hspace : isSpace (octet a) = true → ∃ c ∈ followers, a = ascii c := by
    intro ha
    obtain ⟨c, hc, rfl⟩ := tests_space.iff_ascii.mp ha
    exact ⟨c, List.mem_append_left _ hc, rfl⟩
  cases stack with
  | nil =>
      rcases spaced_cons_iff.mp h with ⟨ha, _⟩ | heq
      · exact hspace ha
      · cases heq
  | cons b outer =>
      rcases spaced_cons_iff.mp h with ⟨ha, _⟩ | hend
      · exact hspace ha
      · rcases entryEnd_cons_iff.mp hend with ⟨rfl, _⟩ | ⟨rfl, _⟩
        · exact ⟨',', by decide, rfl⟩
        · exact ⟨closing b, by cases b <;> decide, rfl⟩

/-- What may follow a value does not go on with a number. -/
theorem next?_eq_none_of_after (h : After stack (a :: s)) (part : Numeral) :
    part.next? (octet a) = none := by
  have hnone : ∀ c ∈ followers, part.next? c.toNat.toUInt8 = none := by
    cases part <;> exact forall_of_all (by decide)
  have hascii : ∀ c ∈ followers, c.toNat < 0x80 := forall_of_all (by decide)
  obtain ⟨c, hc, rfl⟩ := exists_follower h
  rw [Alphabet.octet_ascii (hascii c hc)]
  exact hnone c hc

end After

section Steps

variable {P : List α → Prop} {isKey : Bool}

theorem completes_afterString_iff :
    Completes ⟨afterString isKey, stack⟩ s ↔ AfterString isKey stack s := by
  cases isKey <;> rfl

theorem eq_four_of_length {β : Type} {bs : List β} (h : bs.length = 4) :
    ∃ b₁ b₂ b₃ b₄, bs = [b₁, b₂, b₃, b₄] := by
  rcases bs with _ | ⟨b₁, _ | ⟨b₂, _ | ⟨b₃, _ | ⟨b₄, _ | ⟨b₅, bs⟩⟩⟩⟩⟩
  case cons.cons.cons.cons.nil => exact ⟨b₁, b₂, b₃, b₄, rfl⟩
  all_goals simp at h

/-- A backslash in a string stands before a letter or before the digits of a unit. -/
theorem escapeFrom_cons_iff :
    EscapeFrom P (a :: s) ↔
      (isEscaped (octet a) = true ∧ StringFrom P s) ∨ (a = ascii 'u' ∧ HexFrom 4 P s) := by
  constructor
  · rintro ⟨piece, rest, heq, hrest⟩
    cases piece with
    | plain b _ _ hbackslash =>
        rw [Piece.written, List.singleton_append, List.cons.injEq] at heq
        rw [← heq.1, Alphabet.octet_ascii (by decide)] at hbackslash
        exact absurd rfl hbackslash
    | escaped letter =>
        simp only [Piece.written, symbols_cons, symbols_nil, List.cons_append, List.nil_append,
          List.cons.injEq, true_and] at heq
        obtain ⟨rfl, rfl⟩ := heq
        exact .inl ⟨tests_escaped.iff_ascii.mpr ⟨letter.1, letter.2, rfl⟩, hrest⟩
    | unit d₁ d₂ d₃ d₄ =>
        rw [Piece.written, symbols_cons, symbols_cons, List.cons_append, List.cons_append,
          List.cons.injEq, List.cons.injEq] at heq
        exact .inr ⟨heq.2.1, [d₁, d₂, d₃, d₄], rest, rfl, heq.2.2, hrest⟩
  · rintro (⟨ha, hrest⟩ | ⟨rfl, ds, rest, hlength, rfl, hrest⟩)
    · obtain ⟨c, hc, rfl⟩ := tests_escaped.iff_ascii.mp ha
      exact ⟨.escaped ⟨c, hc⟩, s, rfl, hrest⟩
    · obtain ⟨d₁, d₂, d₃, d₄, rfl⟩ := eq_four_of_length hlength
      exact ⟨.unit d₁ d₂ d₃ d₄, rest, rfl, hrest⟩

theorem hexFrom_zero_iff : HexFrom 0 P s ↔ StringFrom P s := by
  constructor
  · rintro ⟨ds, rest, hlength, rfl, hrest⟩
    rw [List.length_eq_zero_iff.mp hlength]
    exact hrest
  · exact fun h => ⟨[], s, rfl, rfl, h⟩

theorem hexFrom_succ_iff {count : Nat} :
    HexFrom (count + 1) P (a :: s) ↔ isHexDigit (octet a) = true ∧ HexFrom count P s := by
  constructor
  · rintro ⟨ds, rest, hlength, heq, hrest⟩
    cases ds with
    | nil => cases hlength
    | cons d ds =>
        rw [spell_cons, symbols_cons, List.cons_append, List.cons.injEq] at heq
        exact ⟨tests_hexDigit.iff_ascii.mpr ⟨d.1, d.2, heq.1⟩, ds, rest,
          Nat.succ.inj hlength, heq.2, hrest⟩
  · rintro ⟨ha, ds, rest, rfl, rfl, hrest⟩
    obtain ⟨c, hc, rfl⟩ := tests_hexDigit.iff_ascii.mp ha
    exact ⟨⟨c, hc⟩ :: ds, rest, rfl, rfl, hrest⟩

theorem exists_cons_iff {β : Type} {Q : List β → Prop} {b c : β} {t : List β} :
    (∃ rest, b :: t = c :: rest ∧ Q rest) ↔ b = c ∧ Q t := by
  constructor
  · rintro ⟨rest, heq, hrest⟩
    rw [List.cons.injEq] at heq
    exact ⟨heq.1, heq.2 ▸ hrest⟩
  · rintro ⟨rfl, hrest⟩
    exact ⟨t, rfl, hrest⟩

theorem closeFrom_cons_iff {b : Bracket} :
    CloseFrom b stack (a :: s) ↔ a = ascii (closing b) ∧ After stack.tail s :=
  exists_cons_iff

theorem keyFrom_cons_iff :
    KeyFrom stack (a :: s) ↔ a = ascii '"' ∧ Completes ⟨.string true, stack⟩ s :=
  exists_cons_iff

theorem colonFrom_cons_iff :
    ColonFrom stack (a :: s) ↔ a = ascii ':' ∧ Completes ⟨.value, stack⟩ s :=
  exists_cons_iff

theorem valueFrom_step :
    ValueFrom stack (a :: s) ↔
      ∃ next, beginValue stack (octet a) = some next ∧ Completes next s := by
  simp only [valueFrom_cons_iff, beginValue_eq_some_iff]

theorem exists_test_iff {test : Bool} {found : State} :
    (∃ next, (if test then some found else none) = some next ∧ Completes next s) ↔
      test = true ∧ Completes found s := by
  cases test <;> simp

/-- What the gate does with a symbol where only one ASCII character may come. -/
theorem exists_only_iff (c : Char) {o : UInt8} {found : State}
    (hc : c.toNat < 0x80 ∧ c.toNat.toUInt8 = o) :
    (∃ next, (if octet a == o then some found else none) = some next ∧ Completes next s) ↔
      a = ascii c ∧ Completes found s := by
  rw [exists_ite_iff c hc (fun _ => rfl)]
  simp

/-- Behind the letters of a keyword there is what may follow a value. -/
theorem completes_keyword_nil_iff :
    Completes ⟨.keyword [], stack⟩ (a :: s) ↔ After stack (a :: s) := by
  constructor
  · rintro ⟨_, t, rest, heq, ht, hrest⟩
    rw [List.map_eq_nil_iff.mp ht, List.nil_append] at heq
    rwa [heq]
  · exact fun h => ⟨List.cons_ne_nil a s, [], a :: s, rfl, rfl, h⟩

theorem completes_keyword_cons_iff {letter : UInt8} {left : Octets} :
    Completes ⟨.keyword (letter :: left), stack⟩ (a :: s) ↔
      octet a = letter ∧
        Completes ⟨if left.isEmpty then .afterValue else .keyword left, stack⟩ s := by
  have hleft : Completes ⟨if left.isEmpty then .afterValue else .keyword left, stack⟩ s ↔
      ∃ t rest, s = t ++ rest ∧ t.map octet = left ∧ After stack rest := by
    cases left with
    | nil =>
        constructor
        · exact fun h => ⟨[], s, rfl, rfl, h⟩
        · rintro ⟨t, rest, rfl, ht, hrest⟩
          rw [List.map_eq_nil_iff.mp ht]
          exact hrest
    | cons letter left =>
        refine and_iff_right_of_imp ?_
        rintro ⟨t, rest, rfl, ht, _⟩
        cases t with
        | nil => cases ht
        | cons a t => exact List.cons_ne_nil _ _
  rw [hleft]
  constructor
  · rintro ⟨_, t, rest, heq, ht, hrest⟩
    cases t with
    | nil => cases ht
    | cons b t =>
        rw [List.cons_append, List.cons.injEq] at heq
        rw [List.map_cons, List.cons.injEq] at ht
        exact ⟨heq.1 ▸ ht.1, t, rest, heq.2, ht.2, hrest⟩
  · rintro ⟨rfl, t, rest, rfl, rfl, hrest⟩
    exact ⟨List.cons_ne_nil _ _, a :: t, rest, rfl, rfl, hrest⟩

/-- A number goes on as the gate lets it, or it is complete and something follows it. -/
theorem completes_numeral_iff {part : Numeral} :
    Completes ⟨.numeral part, stack⟩ (a :: s) ↔
      (∃ next, part.next? (octet a) = some next ∧ Completes ⟨.numeral next, stack⟩ s) ∨
      (part.isComplete = true ∧ After stack (a :: s)) := by
  constructor
  · rintro ⟨t, rest, heq, hend, hrest⟩
    cases t with
    | nil =>
        rw [symbols_nil, List.nil_append] at heq
        exact .inr ⟨numberEnd_nil_iff.mp hend, heq ▸ hrest⟩
    | cons c t =>
        rw [symbols_cons, List.cons_append, List.cons.injEq] at heq
        obtain ⟨⟨letters, next⟩, hmem, hc, hnext⟩ := numberEnd_cons_iff.mp hend
        exact .inl ⟨next, next?_eq_some_iff.mpr ⟨_, hmem, rfl, c, hc, heq.1⟩, t, rest, heq.2,
          hnext, hrest⟩
  · rintro (⟨next, hnext, t, rest, rfl, hend, hrest⟩ | ⟨hcomplete, hrest⟩)
    · obtain ⟨⟨letters, _⟩, hmem, rfl, c, hc, rfl⟩ := next?_eq_some_iff.mp hnext
      exact ⟨c :: t, rest, rfl, numberEnd_cons_iff.mpr ⟨_, hmem, hc, hend⟩, hrest⟩
    · exact ⟨[], a :: s, rfl, numberEnd_nil_iff.mpr hcomplete, hrest⟩

theorem string_step :
    Completes ⟨.string isKey, stack⟩ (a :: s) ↔
      ∃ next, step ⟨.string isKey, stack⟩ (octet a) = some next ∧ Completes next s := by
  have hstring : Completes ⟨.string isKey, stack⟩ (a :: s) ↔ _ := stringFrom_cons_iff
  have hplain : octet a = 0x5C → (if isPlain (octet a) then some ⟨.string isKey, stack⟩
      else none) = (none : Option State) := fun h => by rw [h]; rfl
  simp only [step]
  rw [exists_ite_iff '"' (by decide) (fun h => by rw [h]; rfl),
    exists_ite_iff '\\' (by decide) hplain, exists_test_iff, hstring,
    completes_afterString_iff, @or_comm (isPlain _ = true ∧ _)]
  rfl

theorem escape_step :
    Completes ⟨.escape isKey, stack⟩ (a :: s) ↔
      ∃ next, step ⟨.escape isKey, stack⟩ (octet a) = some next ∧ Completes next s := by
  have hescape : Completes ⟨.escape isKey, stack⟩ (a :: s) ↔ _ := escapeFrom_cons_iff
  simp only [step]
  rw [hescape]
  cases hletter : isEscaped (octet a) with
  | true =>
      have hunit : a ≠ ascii 'u' := by
        rintro rfl
        simp [Alphabet.octet_ascii, isEscaped] at hletter
      simp [hunit, Completes]
  | false =>
      simp only [Bool.false_eq_true, false_and, false_or, if_false]
      rw [exists_only_iff 'u' (by decide)]
      rfl

theorem hex_step {more : Nat} :
    Completes ⟨.hex isKey more, stack⟩ (a :: s) ↔
      ∃ next, step ⟨.hex isKey more, stack⟩ (octet a) = some next ∧ Completes next s := by
  have hhex : Completes ⟨.hex isKey more, stack⟩ (a :: s) ↔ _ := hexFrom_succ_iff
  simp only [step]
  rw [exists_test_iff, hhex]
  cases more with
  | zero =>
      -- The last of the four digits leads back into the string.
      rw [hexFrom_zero_iff]
      rfl
  | succ more => rfl

theorem numeral_step {part : Numeral} :
    Completes ⟨.numeral part, stack⟩ (a :: s) ↔
      ∃ next, step ⟨.numeral part, stack⟩ (octet a) = some next ∧ Completes next s := by
  rw [completes_numeral_iff]
  simp only [step]
  cases hnext : part.next? (octet a) with
  | none =>
      rw [after_step]
      cases part.isComplete <;> simp
  | some next =>
      -- The gate reads on while it can; nothing is lost, as what may follow begins otherwise.
      have hafter : ¬ After stack (a :: s) := by
        intro h
        rw [next?_eq_none_of_after h part] at hnext
        cases hnext
      simp [hafter]

/-- A symbol in front of a text is what the gate takes in before it. -/
theorem completes_cons_iff {state : State} :
    Completes state (a :: s) ↔ ∃ next, step state (octet a) = some next ∧ Completes next s := by
  obtain ⟨mode, stack⟩ := state
  -- Between tokens white space keeps the state; what else is looked for is solid in each mode.
  cases mode with
  | value =>
      exact spaced_step ⟨.value, stack⟩ _ (fun _ => Iff.rfl) ⟨rfl, rfl, rfl, rfl⟩ valueFrom_step
  | firstElement =>
      refine spaced_step ⟨.firstElement, stack⟩ (fun o =>
        if o == 0x5D then some ⟨.afterValue, stack.tail⟩ else beginValue stack o)
        (fun _ => Iff.rfl) ⟨rfl, rfl, rfl, rfl⟩ ?_
      rw [exists_ite_iff ']' (by decide) (fun h => by rw [h]; rfl), closeFrom_cons_iff,
        valueFrom_step]
      rfl
  | firstKey =>
      refine spaced_step ⟨.firstKey, stack⟩ (fun o =>
        if o == 0x7D then some ⟨.afterValue, stack.tail⟩
        else if o == 0x22 then some ⟨.string true, stack⟩
        else none) (fun _ => Iff.rfl) ⟨rfl, rfl, rfl, rfl⟩ ?_
      rw [exists_ite_iff '\x7d' (by decide) (fun h => by rw [h]; rfl),
        exists_only_iff '"' (by decide), closeFrom_cons_iff, keyFrom_cons_iff]
      rfl
  | key =>
      refine spaced_step ⟨.key, stack⟩ (fun o =>
        if o == 0x22 then some ⟨.string true, stack⟩ else none)
        (fun _ => Iff.rfl) ⟨rfl, rfl, rfl, rfl⟩ ?_
      rw [exists_only_iff '"' (by decide), keyFrom_cons_iff]
  | colon =>
      refine spaced_step ⟨.colon, stack⟩ (fun o =>
        if o == 0x3A then some ⟨.value, stack⟩ else none)
        (fun _ => Iff.rfl) ⟨rfl, rfl, rfl, rfl⟩ ?_
      rw [exists_only_iff ':' (by decide), colonFrom_cons_iff]
  | afterValue => exact after_step
  | string isKey => exact string_step
  | escape isKey => exact escape_step
  | hex isKey more => exact hex_step
  | keyword left =>
      cases left with
      | nil => exact completes_keyword_nil_iff.trans after_step
      | cons letter left =>
          simp only [step]
          rw [exists_test_iff, beq_iff_eq]
          exact completes_keyword_cons_iff
  | numeral part => exact numeral_step

theorem unsigned_ne_nil (n : Literal) : n.unsigned ≠ [] := by
  intro h
  exact not_signEnd_nil (h ▸ (numberEnd_sign_iff n.negative).mpr ⟨n, rfl, rfl⟩)

theorem not_valueFrom_nil : ¬ ValueFrom stack ([] : List α) := by
  rintro ⟨value, rest, heq, _⟩
  obtain ⟨hvalue, _⟩ := List.append_eq_nil_iff.mp heq.symm
  cases value with
  | number n =>
      have hspelled : n.spelled = [] := List.map_eq_nil_iff.mp hvalue
      rw [Literal.spelled] at hspelled
      split at hspelled
      · cases hspelled
      · exact unsigned_ne_nil n hspelled
  | _ => cases hvalue

theorem after_nil_iff : After stack ([] : List α) ↔ stack = [] := by
  cases stack with
  | nil => simp [After, spaced_nil_iff]
  | cons b outer => simp [After, spaced_nil_iff, EntryEnd]

theorem not_escapeFrom_nil : ¬ EscapeFrom P [] := by
  rintro ⟨piece, rest, heq, hrest⟩
  cases piece with
  | plain b _ _ hbackslash =>
      obtain rfl : rest = [] := (List.cons.inj heq).2.symm
      exact not_stringFrom_nil hrest
  | escaped letter => simp [Piece.written] at heq
  | unit d₁ d₂ d₃ d₄ => simp [Piece.written] at heq

theorem not_hexFrom_nil {count : Nat} : ¬ HexFrom (count + 1) P [] := by
  rintro ⟨ds, rest, hlength, heq, _⟩
  cases ds with
  | nil => cases hlength
  | cons d ds => cases heq

theorem completes_numeral_nil_iff {part : Numeral} :
    Completes ⟨.numeral part, stack⟩ ([] : List α) ↔ stack = [] ∧ part.isComplete = true := by
  rw [← @after_nil_iff α, ← numberEnd_nil_iff]
  constructor
  · rintro ⟨t, rest, heq, hend, hrest⟩
    obtain ⟨ht, rfl⟩ := List.append_eq_nil_iff.mp heq.symm
    obtain rfl := List.map_eq_nil_iff.mp ht
    exact ⟨hrest, hend⟩
  · rintro ⟨hrest, hend⟩
    exact ⟨[], [], rfl, hend, hrest⟩

/-- Nothing more is needed where a document may end. -/
theorem completes_nil_iff {state : State} :
    Completes state ([] : List α) ↔ state.isComplete = true := by
  obtain ⟨mode, stack⟩ := state
  rw [State.isComplete, Bool.and_eq_true, List.isEmpty_iff]
  cases mode with
  | value => simp [Completes, spaced_nil_iff, not_valueFrom_nil]
  | firstElement => simp [Completes, spaced_nil_iff, not_valueFrom_nil, CloseFrom]
  | firstKey => simp [Completes, spaced_nil_iff, CloseFrom, KeyFrom]
  | key => simp [Completes, spaced_nil_iff, KeyFrom]
  | colon => simp [Completes, spaced_nil_iff, ColonFrom]
  | afterValue => simp [Completes, after_nil_iff]
  | string isKey => simp [Completes, not_stringFrom_nil]
  | escape isKey => simp [Completes, not_escapeFrom_nil]
  | hex isKey more => simp [Completes, not_hexFrom_nil]
  | keyword left => simp [Completes]
  | numeral part => exact completes_numeral_nil_iff

/-- What the gate lets through from a state completes a document from there. -/
theorem accepts_iff_completes {state : State} :
    ((s.map octet).foldlM step state).any State.isComplete = true ↔ Completes state s := by
  induction s generalizing state with
  | nil => exact completes_nil_iff.symm
  | cons a s ih =>
      rw [completes_cons_iff, List.map_cons, List.foldlM_cons]
      cases hstep : step state (octet a) with
      | none => simp
      | some next => simp [ih]

end Steps

/-- What completes a document from the start is a document. -/
theorem completes_start_iff : Completes start s ↔ ∃ d : Document α, d.written = s := by
  constructor
  · rintro ⟨before, _, rfl, value, _, rfl, after, _, rfl, rfl⟩
    exact ⟨⟨before, value, after⟩, by simp [Document.written]⟩
  · rintro ⟨⟨before, value, after⟩, rfl⟩
    exact ⟨before, _, rfl, value, _, rfl, after, [], by simp, rfl⟩

end Extraction.Json.Gate

namespace Extraction.Json

/-- The gate lets octets through exactly when they are a document of the grammar. -/
theorem isDocument_iff_written {s : Octets} :
    isDocument s = true ↔ ∃ d : Document UInt8, d.written = s := by
  have hoctets : s.map octet = s := List.map_id s
  rw [← Gate.completes_start_iff, ← Gate.accepts_iff_completes, hoctets]
  rfl

/-- A comma stands between entries only. -/
example : isDocument (symbols ['[', '1', ',', ']']) = false := by decide

/-- A number does not begin with a zero before other digits. -/
example : isDocument (symbols ['0', '1']) = false := by decide

/-- There is nothing behind a document but white space. -/
example : isDocument (symbols ['1', ' ', '1']) = false := by decide

end Extraction.Json
