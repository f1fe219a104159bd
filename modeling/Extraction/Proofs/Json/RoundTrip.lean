import Extraction.Json.Printer
import Extraction.Proofs.Json.Container
import Extraction.Proofs.Table

/-!
# Documents that are written and read

A value with no doubles in it is read back from the text it is written as, as
long as its containers nest no deeper than a document may. One level more and
the text is refused as too deep, wherever in the value the level is.
-/

namespace Extraction.Json

/-- A value whose numbers are integers of 64 bits, and whose objects hold their members in the order
of the keys, each key once. -/
inductive Value.Exact : Value → Prop
  | null : Exact .null
  | bool (value : Bool) : Exact (.bool value)
  | integer {n : Int} : -Nat.pow 2 63 ≤ n → n < Nat.pow 2 64 → Exact (.number (.integer n))
  | string (value : String) : Exact (.string value)
  | array {items : List Value} : (∀ item ∈ items, Exact item) → Exact (.array items)
  | object {members : List (String × Value)} : Table.Sorted members →
      (∀ entry ∈ members, Exact entry.2) → Exact (.object members)

theorem depthOfItems_le_iff {items : List Value} {d : Nat} :
    depthOfItems items ≤ d ↔ ∀ item ∈ items, item.depth ≤ d := by
  induction items with
  | nil => simp [depthOfItems]
  | cons item rest ih => rw [depthOfItems, Nat.max_le, ih, List.forall_mem_cons]

theorem lt_depthOfItems_iff {items : List Value} {d : Nat} :
    d < depthOfItems items ↔ ∃ item ∈ items, d < item.depth := by
  rw [← Nat.not_le, depthOfItems_le_iff]
  simp

theorem depthOfMembers_le_iff {members : List (String × Value)} {d : Nat} :
    depthOfMembers members ≤ d ↔ ∀ entry ∈ members, entry.2.depth ≤ d := by
  induction members with
  | nil => simp [depthOfMembers]
  | cons entry rest ih => rw [depthOfMembers, Nat.max_le, ih, List.forall_mem_cons]

theorem lt_depthOfMembers_iff {members : List (String × Value)} {d : Nat} :
    d < depthOfMembers members ↔ ∃ entry ∈ members, d < entry.2.depth := by
  rw [← Nat.not_le, depthOfMembers_le_iff]
  simp

/-- A member as it is written. -/
def compactMember (entry : String × Value) : List Char := quote entry.1 ++ ':' :: entry.2.compact

theorem compactItems_eq_separated (items : List Value) :
    compactItems items = separated (items.map Value.compact) := by
  induction items with
  | nil => rfl
  | cons item rest ih =>
      cases rest with
      | nil => rfl
      | cons next rest => simpa [compactItems, separated] using ih

theorem compactMembers_eq_separated (members : List (String × Value)) :
    compactMembers members = separated (members.map compactMember) := by
  induction members with
  | nil => rfl
  | cons entry rest ih =>
      cases rest with
      | nil => rfl
      | cons next rest => simpa [compactMembers, separated, compactMember] using ih

section Scalars

variable (item : Option (Reader Value))

theorem reads_null : Reads (valueWith item).run "null".toList .null := by
  intro rest _
  exact ⟨rest, by simp [valueWith, skipSpace_cons, isSpace, valueFrom, scalar, keyword], rfl⟩

theorem reads_bool (value : Bool) :
    Reads (valueWith item).run (Value.bool value).compact (.bool value) := by
  intro rest _
  refine ⟨rest, ?_, rfl⟩
  cases value <;>
    simp [Value.compact, valueWith, skipSpace_cons, isSpace, valueFrom, scalar, keyword]

theorem valueWith_mark (s : List Char) :
    (valueWith item).run ('"' :: s) =
      (unquote.run s).map fun (text, rest) => (.string text, rest) := by
  simp [valueWith, skipSpace_cons, isSpace, valueFrom, scalar]

theorem reads_string (value : String) :
    Reads (valueWith item).run (quote value) (.string value) := by
  intro rest _
  refine ⟨rest, ?_, rfl⟩
  rw [quote, List.cons_append, List.append_assoc, List.singleton_append, valueWith_mark,
    unquote_quoteBody]
  rfl

/-- A digit begins a numeral without a sign. -/
theorem valueWith_digit {c : Char} (hc : c.isDigit = true) (s : List Char) :
    (valueWith item).run (c :: s) =
      (unsigned false (c :: s)).map fun (n, rest) => (.number n, rest) := by
  have hne : ∀ d : Char, d.isDigit = false → c ≠ d := by
    rintro d hd rfl
    rw [hc] at hd
    cases hd
  have hsolid : isSpace c = false := by
    simp [isSpace, hne ' ' (by decide), hne '\t' (by decide), hne '\n' (by decide),
      hne '\r' (by decide)]
  simp [valueWith, skipSpace_cons hsolid, valueFrom, scalar, hc, hne '[' (by decide),
    hne '\x7b' (by decide), hne '"' (by decide), hne 'n' (by decide), hne 't' (by decide),
    hne 'f' (by decide), hne '-' (by decide)]

theorem valueWith_minus (s : List Char) :
    (valueWith item).run ('-' :: s) =
      (unsigned true s).map fun (n, rest) => (.number n, rest) := by
  simp [valueWith, skipSpace_cons, isSpace, valueFrom, scalar]

theorem reads_integer {n : Int} (hmin : -Nat.pow 2 63 ≤ n) (hmax : n < Nat.pow 2 64) :
    Reads (valueWith item).run (writeInteger n) (.number (.integer n)) := by
  intro rest hends
  refine ⟨rest, ?_, rfl⟩
  simp only [Nat.pow_eq] at hmin hmax
  have hsize : n.natAbs < UInt64.size := by
    unfold UInt64.size
    omega
  have hread := unsigned_toDigits hsize hends
  unfold writeInteger
  split
  next hneg =>
    -- A sign with nothing behind it, or with too much, would have made a double.
    have hend : endInteger true n.natAbs rest = .ok (.integer n, rest) := by
      have hrange : ¬ (n.natAbs = 0 ∨ Nat.pow 2 63 < n.natAbs) := by
        simp only [Nat.pow_eq]
        omega
      have hvalue : -(n.natAbs : Int) = n := by omega
      rw [endInteger, if_neg (by decide), if_neg hrange, hvalue]
    rw [List.cons_append, valueWith_minus, hread, hend]
    rfl
  next hpos =>
    have hvalue : (n.natAbs : Int) = n := by omega
    obtain ⟨c, digits, hdigits⟩ := List.exists_cons_of_ne_nil (Nat.toDigits_ne_nil (n := n.natAbs))
    have hmem : c ∈ Nat.toDigits 10 n.natAbs := hdigits ▸ List.mem_cons_self
    have hc := Nat.isDigit_of_mem_toDigits (by decide) (by decide) hmem
    rw [hdigits] at hread ⊢
    rw [List.cons_append] at hread ⊢
    rw [valueWith_digit item hc, hread, endInteger, if_pos rfl, hvalue]
    rfl

end Scalars

/-- What is not a container is read wherever a value may stand. -/
theorem reads_scalar (item : Option (Reader Value)) {v : Value} (hv : v.Exact)
    (hdepth : v.depth = 0) : Reads (valueWith item).run v.compact v := by
  cases hv with
  | null => exact reads_null item
  | bool value => exact reads_bool item value
  | integer hmin hmax => exact reads_integer item hmin hmax
  | string value => exact reads_string item value
  | array => cases hdepth
  | object => cases hdepth

/-- A value is read back where containers may nest as deep as it does. -/
theorem reads_compact {v : Value} (hv : v.Exact) {d : Nat} (hdepth : v.depth ≤ d) :
    Reads (value d).run v.compact v := by
  induction d generalizing v with
  | zero => exact reads_scalar none hv (Nat.le_zero.mp hdepth)
  | succ d ih =>
      rcases Nat.eq_zero_or_pos v.depth with hscalar | hcontainer
      · exact reads_scalar _ hv hscalar
      cases hv with
      | @array items hexact =>
          have hdepths := depthOfItems_le_iff.mp (Nat.le_of_succ_le_succ hdepth)
          have hitems : ∀ item ∈ items, Reads (value d).run item.compact item := by
            intro item hitem
            exact ih (hexact item hitem) (hdepths item hitem)
          rw [Value.compact, compactItems_eq_separated]
          exact reads_array ((isSequence_value d).reads hitems)
      | @object members hsorted hexact =>
          have hdepths := depthOfMembers_le_iff.mp (Nat.le_of_succ_le_succ hdepth)
          have hmembers : ∀ entry ∈ members,
              Reads (memberAfterSpace (value d)) (compactMember entry) entry := by
            intro entry hentry
            apply reads_member
            exact ih (hexact entry hentry) (hdepths entry hentry)
          -- The members are bound in their order again, which gives back a table in order.
          have hread := reads_object ((isSequence_members (value d)).reads hmembers)
          rw [Table.ofBindings_of_sorted hsorted] at hread
          rw [Value.compact, compactMembers_eq_separated]
          exact hread
      | _ => cases hcontainer

/-- A value that nests deeper is refused as too deep. -/
theorem refuses_compact {v : Value} (hv : v.Exact) {d : Nat} (hdeep : d < v.depth) :
    Refuses (value d).run v.compact .tooDeep := by
  induction d generalizing v with
  | zero =>
      cases hv with
      | array => exact refuses_bracket (.inl rfl) _
      | object => exact refuses_bracket (.inr rfl) _
      | _ => cases hdeep
  | succ d ih =>
      -- One level down each member is read or is refused as too deep, and one is the latter.
      have hcases {w : Value} (hw : w.Exact) :
          Reads (value d).run w.compact w ∨ Refuses (value d).run w.compact .tooDeep := by
        rcases Nat.lt_or_ge d w.depth with hlt | hle
        · exact .inr (ih hw hlt)
        · exact .inl (reads_compact hw hle)
      cases hv with
      | @array items hexact =>
          obtain ⟨deep, hmem, hlt⟩ := lt_depthOfItems_iff.mp (Nat.lt_of_succ_lt_succ hdeep)
          have hitems : ∀ item ∈ items,
              Reads (value d).run item.compact item ∨
                Refuses (value d).run item.compact .tooDeep := by
            intro item hitem
            exact hcases (hexact item hitem)
          rw [Value.compact, compactItems_eq_separated]
          exact refuses_array ((isSequence_value d).refuses hitems
            ⟨deep, hmem, ih (hexact deep hmem) hlt⟩)
      | @object members hsorted hexact =>
          obtain ⟨deep, hmem, hlt⟩ := lt_depthOfMembers_iff.mp (Nat.lt_of_succ_lt_succ hdeep)
          have hmembers : ∀ entry ∈ members,
              Reads (memberAfterSpace (value d)) (compactMember entry) entry ∨
                Refuses (memberAfterSpace (value d)) (compactMember entry) .tooDeep := by
            intro entry hentry
            rcases hcases (hexact entry hentry) with hread | hrefuse
            · exact .inl (reads_member entry.1 hread)
            · exact .inr (refuses_member entry.1 hrefuse)
          rw [Value.compact, compactMembers_eq_separated]
          exact refuses_object ((isSequence_members (value d)).refuses hmembers
            ⟨deep, hmem, refuses_member deep.1 (ih (hexact deep hmem) hlt)⟩)
      | _ => cases hdeep

/-- A text that is read as a value is a document, also with white space behind it. -/
theorem parse_of_reads {text w : List Char} {v : Value} (h : Reads (value deepest).run text v)
    (hw : AllSpace w) : parse (String.ofList (text ++ w)) = .ok v := by
  have hend := endsNumeral_allSpace_append hw endsNumeral_nil
  have hspace := skipSpace_allSpace_append hw []
  rw [List.append_nil] at hend hspace
  obtain ⟨left, hrun, hleft⟩ := h w hend
  have hread : read deepest (text ++ w) = .ok v := by
    simp only [read, hrun, bind, Except.bind]
    rw [hleft.trans hspace]
    rfl
  simp [parse, hread, Except.mapError]

/-- A document is read back from its own text as long as it nests no deeper than one may. -/
theorem parse_compactText {v : Value} (hv : v.Exact) (hdepth : v.depth ≤ deepest) :
    parse v.compactText = .ok v := by
  have hread := parse_of_reads (reads_compact hv hdepth) allSpace_nil
  rwa [List.append_nil] at hread

/-- The text of a document that nests deeper is no document. -/
theorem parse_compactText_of_deep {v : Value} (hv : v.Exact) (hdeep : deepest < v.depth) :
    ∃ e, parse v.compactText = .error e ∧ e.fault = .tooDeep := by
  obtain ⟨failure, hrun, hfault⟩ := refuses_compact hv hdeep [] endsNumeral_nil
  rw [List.append_nil] at hrun
  have hread : read deepest v.compact = .error failure := by
    simp only [read, hrun, bind, Except.bind]
  refine ⟨failure.locate v.compact, ?_, hfault⟩
  simp [parse, Value.compactText, hread, Except.mapError]

end Extraction.Json
