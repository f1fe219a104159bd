import Extraction.Proofs.Json.Quoted
import Extraction.Proofs.Json.Reading

/-!
# Reading containers

The elements of an array and the members of an object are sequences of items
between brackets. A container is read when its items are, and it is too deep
when one of them is.
-/

namespace Extraction.Json

section Elements

variable {item : Reader Value} {read : List Value} {element : Value} {s rest after : List Char}

theorem elements_of_error {failure : Failure} (hitem : item.run s = .error failure) :
    elements item read s = .error failure := by
  rw [elements]
  split
  next heq => rw [hitem] at heq; cases heq; rfl
  next heq => rw [hitem] at heq; cases heq

theorem elements_of_last (hitem : item.run s = .ok (element, rest))
    (hspace : skipSpace rest = ']' :: after) :
    elements item read s = .ok ((element :: read).reverse, after) := by
  rw [elements]
  split
  next heq => rw [hitem] at heq; cases heq
  next heq =>
    rw [hitem] at heq
    cases heq
    split
    next heq' => rw [hspace] at heq'; cases heq'
    next heq' => rw [hspace] at heq'; cases heq'; simp

theorem elements_of_more (hitem : item.run s = .ok (element, rest))
    (hspace : skipSpace rest = ',' :: after) {c : Char} {tail : List Char}
    (hnext : skipSpace after = c :: tail) (hc : c ≠ ']') :
    elements item read s = elements item (element :: read) after := by
  rw [elements]
  split
  next heq => rw [hitem] at heq; cases heq
  next heq =>
    rw [hitem] at heq
    cases heq
    split
    next heq' => rw [hspace] at heq'; cases heq'
    next heq' =>
      rw [hspace] at heq'
      cases heq'
      rw [if_neg (by decide), if_pos rfl]
      split
      next heq'' => rw [hnext] at heq''; cases heq''; exact absurd rfl hc
      next => rfl

/-- Only what the first element is read from counts, not the white space in front of it. -/
theorem elements_congr {s s' : List Char} (h : item.run s = item.run s') :
    elements item read s = elements item read s' := by
  rw [elements.eq_def item read s, elements.eq_def item read s']
  grind

theorem valueWith_skipSpace (item : Option (Reader Value)) (s : List Char) :
    (valueWith item).run (skipSpace s) = (valueWith item).run s := by
  simp only [valueWith, skipSpace_skipSpace]

/-- At any depth a value is read after white space. -/
theorem exists_valueWith (d : Nat) : ∃ item, value d = valueWith item := by
  cases d with
  | zero => exact ⟨none, rfl⟩
  | succ d => exact ⟨some (value d), rfl⟩

theorem value_skipSpace (d : Nat) (s : List Char) :
    (value d).run (skipSpace s) = (value d).run s := by
  obtain ⟨item, hitem⟩ := exists_valueWith d
  rw [hitem]
  exact valueWith_skipSpace item s

theorem isSequence_elements (item : Option (Reader Value)) :
    IsSequence (valueWith item).run (elements (valueWith item)) (list (valueWith item)) ']' where
  close_ends _ := endsNumeral_cons (by decide) (by decide) (by decide)
  close_solid := by decide
  starts s := by
    cases hs : skipSpace s with
    | nil => exact .inr ⟨⟨.endInValue, [], 1⟩, by simp [valueWith, hs, valueFrom], by simp⟩
    | cons c tail =>
        by_cases hc : c = ']'
        · subst hc
          exact .inr ⟨⟨.expectedValue, ']' :: tail, 1⟩, by simp [valueWith, hs, valueFrom, scalar],
            by simp⟩
        · exact .inl ⟨c, tail, rfl, hc⟩
  of_error := elements_of_error
  of_last := elements_of_last
  of_more hrun hspace hnext hc := elements_of_more hrun hspace hnext hc
  of_none hs := by simp [list, hs]
  of_some hs hc := by
    rw [← elements_congr (valueWith_skipSpace item _)]
    simp [list, hs, hc]

theorem isSequence_value (depth : Nat) :
    IsSequence (value depth).run (elements (value depth)) (list (value depth)) ']' := by
  obtain ⟨item, hitem⟩ := exists_valueWith depth
  rw [hitem]
  exact isSequence_elements item

end Elements

/-- Reads a member after white space. -/
def memberAfterSpace (item : Reader Value) (s : List Char) :
    Except Failure ((String × Value) × List Char) :=
  member item (skipSpace s)

theorem memberAfterSpace_skipSpace (item : Reader Value) (s : List Char) :
    memberAfterSpace item (skipSpace s) = memberAfterSpace item s := by
  rw [memberAfterSpace, skipSpace_skipSpace, memberAfterSpace]

section Members

variable {item : Reader Value} {read : List (String × Value)} {entry : String × Value}
  {value : Value} {s rest after : List Char}

theorem members_of_error {failure : Failure} (hentry : member item s = .error failure) :
    members item read s = .error failure := by
  rw [members]
  split
  next heq => rw [hentry] at heq; cases heq; rfl
  next heq => rw [hentry] at heq; cases heq

theorem members_of_last (hentry : member item s = .ok (entry, rest))
    (hspace : skipSpace rest = '\x7d' :: after) :
    members item read s = .ok ((entry :: read).reverse, after) := by
  rw [members]
  split
  next heq => rw [hentry] at heq; cases heq
  next heq =>
    rw [hentry] at heq
    cases heq
    split
    next heq' => rw [hspace] at heq'; cases heq'
    next heq' => rw [hspace] at heq'; cases heq'; simp

theorem members_of_more (hentry : member item s = .ok (entry, rest))
    (hspace : skipSpace rest = ',' :: after) {c : Char} {tail : List Char}
    (hnext : skipSpace after = c :: tail) (hc : c ≠ '\x7d') :
    members item read s = members item (entry :: read) (skipSpace after) := by
  rw [members]
  split
  next heq => rw [hentry] at heq; cases heq
  next heq =>
    rw [hentry] at heq
    cases heq
    split
    next heq' => rw [hspace] at heq'; cases heq'
    next heq' =>
      rw [hspace] at heq'
      cases heq'
      rw [if_neg (by decide), if_pos rfl]
      split
      next heq'' => rw [hnext] at heq''; cases heq''; exact absurd rfl hc
      next => rfl

theorem isSequence_members (item : Reader Value) :
    IsSequence (memberAfterSpace item) (fun read s => members item read (skipSpace s))
      (object item) '\x7d' where
  close_ends _ := endsNumeral_cons (by decide) (by decide) (by decide)
  close_solid := by decide
  starts s := by
    cases hs : skipSpace s with
    | nil => exact .inr ⟨⟨.endInValue, [], 1⟩, by simp [memberAfterSpace, hs, member], by simp⟩
    | cons c tail =>
        by_cases hc : c = '\x7d'
        · subst hc
          exact .inr ⟨⟨.keyNotString, '\x7d' :: tail, 1⟩, by simp [memberAfterSpace, hs, member],
            by simp⟩
        · exact .inl ⟨c, tail, rfl, hc⟩
  of_error := members_of_error
  of_last := members_of_last
  of_more hrun hspace hnext hc := members_of_more hrun hspace hnext hc
  of_none hs := by simp [object, hs]
  of_some hs hc := by simp [object, hs, hc]

/-- Behind a key and the colon the value is read. -/
theorem member_of_key (item : Reader Value) {key : String} {text w : List Char}
    (hkey : ∀ rest, unquote.run (text ++ rest) = .ok (key, rest)) (hw : AllSpace w)
    (s : List Char) :
    memberAfterSpace item ('"' :: (text ++ (w ++ ':' :: s))) =
      (item.run s).map fun (value, rest) => ((key, value), rest) := by
  have hcolon : colon (w ++ ':' :: s) = .ok s := by
    rw [colon, skipSpace_allSpace_append hw, skipSpace_cons (by decide)]
    rfl
  rw [memberAfterSpace, skipSpace_cons (by decide), member, if_pos rfl, hkey]
  simp only [bind, Except.bind, hcolon]
  cases item.run s <;> rfl

theorem member_quote (item : Reader Value) (key : String) (s : List Char) :
    memberAfterSpace item (quote key ++ ':' :: s) =
      (item.run s).map fun (value, rest) => ((key, value), rest) := by
  have hkey (rest : List Char) :
      unquote.run ((quoteBody key.toList ++ ['"']) ++ rest) = .ok (key, rest) := by
    rw [List.append_assoc]
    exact unquote_quoteBody key rest
  exact member_of_key item hkey allSpace_nil s

/-- A member is read when its key and its value are. -/
theorem reads_member_of_key {key : String} {keyText text w : List Char}
    (hkey : ∀ rest, unquote.run (keyText ++ rest) = .ok (key, rest)) (hw : AllSpace w)
    (htext : Reads item.run text value) :
    Reads (memberAfterSpace item) ('"' :: (keyText ++ (w ++ ':' :: text))) (key, value) :=
  htext.of_map (Prod.mk key) fun rest => by
    simpa only [List.cons_append, List.append_assoc] using member_of_key item hkey hw (text ++ rest)

theorem reads_member {text : List Char} (key : String) (htext : Reads item.run text value) :
    Reads (memberAfterSpace item) (quote key ++ ':' :: text) (key, value) :=
  htext.of_map (Prod.mk key) fun rest => by
    rw [List.append_assoc, List.cons_append, member_quote]

/-- A member is refused for what its value is refused for. -/
theorem refuses_member {text : List Char} {fault : Fault} (key : String)
    (htext : Refuses item.run text fault) :
    Refuses (memberAfterSpace item) (quote key ++ ':' :: text) fault :=
  htext.of_map (Prod.mk key) fun rest => by
    rw [List.append_assoc, List.cons_append, member_quote]

end Members

section Brackets

variable {item : Reader Value} {text : List Char} {fault : Fault}

theorem valueWith_openList (item : Reader Value) (s : List Char) :
    (valueWith (some item)).run ('[' :: s) =
      (list item s).map fun (items, rest) => (.array items, rest) := by
  simp [valueWith, skipSpace_cons, isSpace, valueFrom]

theorem valueWith_openObject (item : Reader Value) (s : List Char) :
    (valueWith (some item)).run ('\x7b' :: s) =
      (object item s).map fun (entries, rest) => (.object (Table.ofBindings entries), rest) := by
  simp [valueWith, skipSpace_cons, isSpace, valueFrom]

theorem reads_array {items : List Value} (htext : Reads (list item) text items) :
    Reads (valueWith (some item)).run ('[' :: text) (.array items) :=
  htext.of_map Value.array fun rest => valueWith_openList item (text ++ rest)

theorem refuses_array (htext : Refuses (list item) text fault) :
    Refuses (valueWith (some item)).run ('[' :: text) fault :=
  htext.of_map Value.array fun rest => valueWith_openList item (text ++ rest)

theorem reads_object {entries : List (String × Value)} (htext : Reads (object item) text entries) :
    Reads (valueWith (some item)).run ('\x7b' :: text) (.object (Table.ofBindings entries)) :=
  htext.of_map (fun entries => Value.object (Table.ofBindings entries)) fun rest =>
    valueWith_openObject item (text ++ rest)

theorem refuses_object (htext : Refuses (object item) text fault) :
    Refuses (valueWith (some item)).run ('\x7b' :: text) fault :=
  htext.of_map (fun entries => Value.object (Table.ofBindings entries)) fun rest =>
    valueWith_openObject item (text ++ rest)

/-- Where no container may stand, an opening bracket is too deep. -/
theorem refuses_bracket {c : Char} (hc : c = '[' ∨ c = '\x7b') (text : List Char) :
    Refuses (valueWith none).run (c :: text) .tooDeep := by
  intro rest _
  have hsolid : isSpace c = false := by
    rcases hc with rfl | rfl <;> decide
  refine ⟨⟨.tooDeep, c :: (text ++ rest), 1⟩, ?_, rfl⟩
  simp [valueWith, skipSpace_cons hsolid, valueFrom, hc]

end Brackets

end Extraction.Json
