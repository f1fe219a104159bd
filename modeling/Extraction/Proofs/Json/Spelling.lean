import Extraction.Proofs.Json.Complete

/-!
# Spelling of values

A character of a string may be written as itself, as a letter behind a
backslash, or as its sixteen bit units in hexadecimal digits, and white space may
stand between all tokens. In whichever of these ways a value is written, it is
read back, its objects with the last member of each key.
-/

namespace Extraction.Json

/-! ## Texts -/

section Texts

/-- The letters that stand for a character behind a backslash. -/
def letterEscapes : List (Char × Char) :=
  [('"', '"'), ('\\', '\\'), ('/', '/'), ('b', '\x08'), ('f', '\x0c'), ('n', '\n'), ('r', '\r'),
    ('t', '\t')]

/-- The sixteen bit units of a character, two of them for one outside the first plane. -/
def unitsOf (c : Char) : List Nat :=
  if c.toNat < 0x10000 then [c.toNat]
  else [0xD800 + (c.toNat - 0x10000) / 0x400, 0xDC00 + (c.toNat - 0x10000) % 0x400]

/-- A hexadecimal digit of either case is that of the lowest four bits of a number. -/
def IsDigitOf (digit : HexDigit) (n : Nat) : Prop :=
  digit.1.toLower = Nat.digitChar (n % 0x10)

/-- The escape of a unit by its four digits. -/
def SpellsUnit (piece : Piece Char) (n : Nat) : Prop :=
  ∃ a b c d, piece = .unit a b c d ∧ IsDigitOf a (n / 0x1000) ∧ IsDigitOf b (n / 0x100) ∧
    IsDigitOf c (n / 0x10) ∧ IsDigitOf d n

/-- The ways to write one character of a string. -/
inductive SpellsChar : Body Char → Char → Prop
  | plain {c : Char} (hoctet : 0x20 ≤ octet c) (hmark : octet c ≠ 0x22)
      (hbackslash : octet c ≠ 0x5C) : SpellsChar [.plain c hoctet hmark hbackslash] c
  | letter {letter : Among escapeLetters} {c : Char} : (letter.1, c) ∈ letterEscapes →
      SpellsChar [.escaped letter] c
  | units {body : Body Char} {c : Char} : List.Forall₂ SpellsUnit body (unitsOf c) →
      SpellsChar body c

/-- Each character of a text is written in one of its ways. -/
inductive SpellsText : Body Char → List Char → Prop
  | nil : SpellsText [] []
  | cons {part body : Body Char} {c : Char} {s : List Char} : SpellsChar part c →
      SpellsText body s → SpellsText (part ++ body) (c :: s)

variable {piece : Piece Char} {body : Body Char} {n : Nat} {c : Char} {s : List Char}

theorem shortEscape?_of_mem : ∀ escape ∈ letterEscapes, shortEscape? escape.1 = some escape.2 := by
  decide

theorem hexValue?_of_isDigitOf {digit : HexDigit} (h : IsDigitOf digit n) :
    hexValue? digit.1 = some (n % 0x10) := by
  have hvalues : ∀ c ∈ hexLetters, ∀ k < 0x10, c.toLower = Nat.digitChar k →
      hexValue? c = some k := forall_of_all (by decide)
  exact hvalues digit.1 digit.2 (n % 0x10) (Nat.mod_lt n (by decide)) h

theorem unit?_of_spellsUnit (h : SpellsUnit piece n) (hn : n < 0x10000) : n ∈ piece.unit? := by
  obtain ⟨a, b, c, d, rfl, ha, hb, hc, hd⟩ := h
  simp only [Piece.unit?, hexGroup?, hexValue?_of_isDigitOf ha, hexValue?_of_isDigitOf hb,
    hexValue?_of_isDigitOf hc, hexValue?_of_isDigitOf hd, Option.bind_eq_bind, Option.bind_some,
    Option.pure_def, Option.mem_def, Option.some.injEq]
  omega

/-- A character is no surrogate. -/
theorem not_surrogate (c : Char) :
    isHighSurrogate c.toNat = false ∧ isLowSurrogate c.toNat = false := by
  have hvalid : c.toNat < 0xD800 ∨ 0xDFFF < c.toNat ∧ c.toNat < 0x110000 := c.valid
  simp only [isHighSurrogate, isLowSurrogate, Bool.and_eq_false_iff, decide_eq_false_iff_not]
  omega

theorem pairedChar_units (hc : ¬ c.toNat < 0x10000) :
    pairedChar (0xD800 + (c.toNat - 0x10000) / 0x400) (0xDC00 + (c.toNat - 0x10000) % 0x400) =
      c := by
  have hnumber : (0xD800 + (c.toNat - 0x10000) / 0x400 - 0xD800) * 0x400 +
      (0xDC00 + (c.toNat - 0x10000) % 0x400 - 0xDC00) + 0x10000 = c.toNat := by omega
  rw [pairedChar, hnumber, Char.ofNat_toNat]

/-- The units of a character are read as that character. -/
theorem unquoteFrom_units (h : List.Forall₂ SpellsUnit body (unitsOf c)) (read rest : List Char) :
    unquoteFrom read (writeBody body ++ rest) = unquoteFrom (c :: read) rest := by
  unfold unitsOf at h
  split at h
  next hplane =>
    obtain ⟨piece, _, hpiece, ⟨⟩, rfl⟩ := List.forall₂_cons_right_iff.mp h
    obtain ⟨hhigh, hlow⟩ := not_surrogate c
    rw [writeBody_cons, List.append_assoc,
      unquoteFrom_unit (unit?_of_spellsUnit hpiece hplane) hhigh hlow, Char.ofNat_toNat]
    rfl
  next hplane =>
    have hvalid : c.toNat < 0x110000 := by
      have : c.toNat < 0xD800 ∨ 0xDFFF < c.toNat ∧ c.toNat < 0x110000 := c.valid
      omega
    obtain ⟨high, _, hfirst, hothers, rfl⟩ := List.forall₂_cons_right_iff.mp h
    obtain ⟨low, _, hsecond, ⟨⟩, rfl⟩ := List.forall₂_cons_right_iff.mp hothers
    have hhigh : isHighSurrogate (0xD800 + (c.toNat - 0x10000) / 0x400) = true := by
      simp only [isHighSurrogate, Bool.and_eq_true, decide_eq_true_eq]
      omega
    have hlow : isLowSurrogate (0xDC00 + (c.toNat - 0x10000) % 0x400) = true := by
      simp only [isLowSurrogate, Bool.and_eq_true, decide_eq_true_eq]
      omega
    have hpair := unquoteFrom_pair (unit?_of_spellsUnit hfirst (by omega))
      (unit?_of_spellsUnit hsecond (by omega)) hhigh hlow read rest
    rw [writeBody_cons, writeBody_cons, List.append_assoc, List.append_assoc]
    rw [pairedChar_units hplane] at hpair
    exact hpair

theorem unquoteFrom_spelled_char {part : Body Char} (h : SpellsChar part c)
    (read rest : List Char) :
    unquoteFrom read (writeBody part ++ rest) = unquoteFrom (c :: read) rest := by
  cases h with
  | plain hoctet hmark hbackslash =>
      exact unquoteFrom_written_plain hoctet hmark hbackslash read rest
  | letter hletter =>
      exact unquoteFrom_escape (escape_of_short (shortEscape?_of_mem _ hletter) rest) read
  | units hunits => exact unquoteFrom_units hunits read rest

/-- A character that needs no escape may stand for itself. -/
theorem SpellsText.raw (hc : 0x20 ≤ octet c ∧ octet c ≠ 0x22 ∧ octet c ≠ 0x5C)
    (h : SpellsText body s) : SpellsText (.plain c hc.1 hc.2.1 hc.2.2 :: body) (c :: s) :=
  .cons (.plain hc.1 hc.2.1 hc.2.2) h

/-- However a text is spelled, it is read back, up to the closing mark. -/
theorem unquoteFrom_spelled (h : SpellsText body s) (read rest : List Char) :
    unquoteFrom read (closeBody body ++ rest) = .ok (read.reverse ++ s, rest) := by
  induction h generalizing read with
  | nil => simpa [closeBody_nil] using unquoteFrom_close read rest
  | cons hpart _ ih =>
      rw [closeBody_append, List.append_assoc, unquoteFrom_spelled_char hpart, ih]
      simp

theorem unquote_spelled {text : String} (h : SpellsText body text.toList) (rest : List Char) :
    unquote.run (closeBody body ++ rest) = .ok (text, rest) := by
  simp [unquote, unquoteFrom_spelled h]

end Texts

/-! ## Values -/

section Values

open Gate (Bracket)

/-- What is written in a phrase of each kind. The members of an object stand as they are written, in
any order and with keys that may be repeated. -/
def Content : Part → Type
  | .value => Value
  | .entry b => Item b
  | .entries b => List (Item b)

/-- The ways to write a value, with integers of 64 bits in plain decimal for its numbers. -/
inductive Phrase.Spells : {p : Part} → Phrase Char p → Content p → Prop
  | null : Spells (.keyword .null) Value.null
  | bool (value : Bool) : Spells (.keyword (.bool value)) (Value.bool value)
  | integer {literal : Literal} {n : Int} : -Nat.pow 2 63 ≤ n → n < Nat.pow 2 64 →
      literal.spelled = writeInteger n → Spells (.number literal) (Value.number (.integer n))
  | string {body : Body Char} {text : String} : SpellsText body text.toList →
      Spells (.string body) (Value.string text)
  | emptyArray (space : List Blank) : Spells (.empty .array space) (Value.array [])
  | emptyObject (space : List Blank) : Spells (.empty .object space) (Value.object [])
  | array {entries : Phrase Char (.entries .array)} {items : List Value} : Spells entries items →
      Spells (.container .array entries) (Value.array items)
  | object {entries : Phrase Char (.entries .object)} {members : List (String × Value)} :
      Spells entries members → Spells (.container .object entries) (Value.object members)
  | element {inner : Phrase Char .value} {v : Value} (before after : List Blank) :
      Spells inner v → Spells (.element before inner after) v
  | member {key : Body Char} {name : String} {inner : Phrase Char .value} {v : Value}
      (before beforeColon afterColon after : List Blank) : SpellsText key name.toList →
      Spells inner v → Spells (.member before key beforeColon afterColon inner after) (name, v)
  | last {b : Bracket} {entry : Phrase Char (.entry b)} {item : Item b} : Spells entry item →
      Spells (.last entry) [item]
  | more {b : Bracket} {entry : Phrase Char (.entry b)} {others : Phrase Char (.entries b)}
      {item : Item b} {items : List (Item b)} : Spells entry item → Spells others items →
      Spells (.more entry others) (item :: items)

mutual

/-- A value as it is read: each object is the table of its members, in which the last member of each
key is left. -/
def Value.settled : Value → Value
  | .array items => .array (settledItems items)
  | .object members => .object (Table.ofBindings (settledMembers members))
  | v => v

def settledItems : List Value → List Value
  | [] => []
  | item :: rest => item.settled :: settledItems rest

def settledMembers : List (String × Value) → List (String × Value)
  | [] => []
  | (key, v) :: rest => (key, v.settled) :: settledMembers rest

end

def settledItem : (b : Bracket) → Item b → Item b
  | .array, v => Value.settled v
  | .object, entry => (entry.1, Value.settled entry.2)

theorem settledItems_eq_map (items : List Value) :
    settledItems items = items.map Value.settled := by
  induction items with
  | nil => rfl
  | cons item rest ih => rw [settledItems, ih, List.map_cons]

theorem settledMembers_eq_map (members : List (String × Value)) :
    settledMembers members = members.map fun entry => (entry.1, entry.2.settled) := by
  induction members with
  | nil => rfl
  | cons entry rest ih => rw [settledMembers, ih, List.map_cons]

def depthOf : (p : Part) → Content p → Nat
  | .value, v => Value.depth v
  | .entry .array, v => Value.depth v
  | .entry .object, entry => Value.depth entry.2
  | .entries .array, items => depthOfItems items
  | .entries .object, members => depthOfMembers members

variable {p : Part} {phrase : Phrase Char p} {content : Content p}

/-- However a value is written, the text nests as deep as the value does. -/
theorem nesting_of_spells (h : phrase.Spells content) : phrase.nesting = depthOf p content := by
  induction h with
  | array _ ih => exact congrArg (· + 1) ih
  | object _ ih => exact congrArg (· + 1) ih
  | element _ _ _ ih => exact ih
  | member _ _ _ _ _ _ ih => exact ih
  | @last b _ _ _ ih => cases b <;> exact ih.trans (Nat.max_zero _).symm
  | @more b _ _ _ _ _ _ ih ihothers => cases b <;> exact congrArg₂ max ih ihothers
  | _ => rfl

/-- What is written in a phrase is what reading it gives. -/
def ReadsAs (d : Nat) : {p : Part} → Phrase Char p → Content p → Prop
  | .value, phrase, v => Reads (value d).run phrase.written (Value.settled v)
  | .entry b, phrase, item => Reads (readItem d b) phrase.written (settledItem b item)
  | .entries b, phrase, items => ReadsEntries d b phrase.written (List.map (settledItem b) items)

theorem containerOf_settled_items (items : List Value) :
    containerOf .array (List.map (settledItem .array) items) = (Value.array items).settled := by
  rw [Value.settled, settledItems_eq_map]
  rfl

theorem containerOf_settled_members (members : List (String × Value)) :
    containerOf .object (List.map (settledItem .object) members) =
      (Value.object members).settled := by
  rw [Value.settled, settledMembers_eq_map]
  rfl

/-- A value is read from any phrase it is written in, where containers may nest as deep as they do
in the phrase. -/
theorem readsAs_of_spells (h : phrase.Spells content) {d : Nat} (hd : phrase.nesting ≤ d) :
    ReadsAs d phrase content := by
  induction h generalizing d with
  | null => exact .at_depth reads_null d
  | bool value =>
      cases value with
      | false => exact .at_depth (reads_bool · false) d
      | true => exact .at_depth (reads_bool · true) d
  | integer hmin hmax hliteral =>
      refine .at_depth (fun item => ?_) d
      rw [Phrase.written, symbols_eq, hliteral]
      exact reads_integer item hmin hmax
  | string hbody => exact .at_depth (reads_spelled_string (unquote_spelled hbody)) d
  | emptyArray space =>
      cases d with
      | zero => cases hd
      | succ d => exact reads_empty (b := .array) space
  | emptyObject space =>
      cases d with
      | zero => cases hd
      | succ d => exact reads_empty (b := .object) space
  | @array entries items _ ih =>
      cases d with
      | zero => cases hd
      | succ d =>
          have hitems : ReadsEntries d .array entries.written _ := ih (Nat.le_of_succ_le_succ hd)
          have hread := hitems.reads_container
          rw [containerOf_settled_items] at hread
          exact hread
  | @object entries members _ ih =>
      cases d with
      | zero => cases hd
      | succ d =>
          have hmembers : ReadsEntries d .object entries.written _ := ih (Nat.le_of_succ_le_succ hd)
          have hread := hmembers.reads_container
          rw [containerOf_settled_members] at hread
          exact hread
  | element before after _ ih => exact reads_element (ih hd) before after
  | member before beforeColon afterColon after hkey _ ih =>
      exact reads_spaced_member (unquote_spelled hkey) (ih hd) before beforeColon afterColon after
  | last _ ih => exact .last (ih hd)
  | more _ _ ih ihothers =>
      obtain ⟨hentry, hothers⟩ := Nat.max_le.mp hd
      exact .more (ih hentry) (ihothers hothers)

/-- A document is read as the value it is a way to write, when that nests no deeper than a document
may. -/
theorem parse_of_spells {d : Document Char} {v : Value} (h : d.value.Spells v)
    (hdepth : v.depth ≤ deepest) : parse (String.ofList d.written) = .ok v.settled := by
  have hread : Reads (value deepest).run d.value.written v.settled :=
    readsAs_of_spells h (Nat.le_trans (Nat.le_of_eq (nesting_of_spells h)) hdepth)
  exact parse_written_of_reads hread

end Values

end Extraction.Json
