import Extraction.Json.Numeral
import Extraction.Json.Quoted

/-! # Reading JSON documents

`value depth` reads one value in which containers nest at most `depth` deep;
a document is one value with nothing but white space around it, and may nest
`deepest` containers. The members of an object are bound in the order they are
written, so the last binding of a key counts.
-/

namespace Extraction.Json

/-- The characters that may stand between tokens. -/
def isSpace (c : Char) : Bool := c == ' ' || c == '\t' || c == '\n' || c == '\r'

def skipSpace (s : List Char) : List Char := s.dropWhile isSpace

theorem skipSpace_length_le (s : List Char) : (skipSpace s).length ≤ s.length :=
  (List.dropWhile_sublist _).length_le

/-- Reads the remaining letters of a keyword that stands for `value`. -/
def keyword (value : Value) : List Char → List Char → Except Failure (Value × List Char)
  | [], s => .ok (value, s)
  | _ :: _, [] => .error ⟨.endInValue, [], 0⟩
  | letter :: letters, c :: rest =>
    if c = letter then keyword value letters rest else .error ⟨.expectedIdent, c :: rest, 1⟩

/-- Reads a value other than a container. -/
def scalar : List Char → Except Failure (Value × List Char)
  | [] => .error ⟨.endInValue, [], 1⟩
  | c :: rest =>
    if c = '"' then (unquote.run rest).map fun (text, rest) => (.string text, rest)
    else if c = 'n' then keyword .null ['u', 'l', 'l'] rest
    else if c = 't' then keyword (.bool true) ['r', 'u', 'e'] rest
    else if c = 'f' then keyword (.bool false) ['a', 'l', 's', 'e'] rest
    else if c = '-' then (unsigned true rest).map fun (n, rest) => (.number n, rest)
    else if c.isDigit then (unsigned false (c :: rest)).map fun (n, rest) => (.number n, rest)
    else .error ⟨.expectedValue, c :: rest, 1⟩

/-- Reads elements up to the closing bracket; `read` holds those so far, last first. -/
def elements (item : Reader Value) (read : List Value) (s : List Char) :
    Except Failure (List Value × List Char) :=
  match _ : item.run s with
  | .error failure => .error failure
  | .ok (value, rest) =>
    match _ : skipSpace rest with
    | [] => .error ⟨.endInList, [], 1⟩
    | c :: after =>
      if c = ']' then .ok ((value :: read).reverse, after)
      else if c = ',' then
        match skipSpace after with
        | ']' :: after => .error ⟨.trailingComma, ']' :: after, 1⟩
        | _ => elements item (value :: read) after
      else .error ⟨.expectedListEnd, c :: after, 1⟩
termination_by s.length
decreasing_by
  have := item.shrinks ‹_›
  have := skipSpace_length_le rest
  simp_all only [List.length_cons]
  omega

/-- Reads what follows an opening bracket. -/
def list (item : Reader Value) (s : List Char) : Except Failure (List Value × List Char) :=
  match skipSpace s with
  | [] => .error ⟨.endInList, [], 1⟩
  | c :: rest => if c = ']' then .ok ([], rest) else elements item [] (c :: rest)

/-- Reads the colon between a key and its value. -/
def colon (s : List Char) : Except Failure (List Char) :=
  match skipSpace s with
  | [] => .error ⟨.endInObject, [], 1⟩
  | c :: rest => if c = ':' then .ok rest else .error ⟨.expectedColon, c :: rest, 1⟩

/-- Reads a key, the colon and the value. -/
def member (item : Reader Value) : List Char → Except Failure ((String × Value) × List Char)
  | [] => .error ⟨.endInValue, [], 1⟩
  | c :: rest =>
    if c = '"' then do
      let (key, rest) ← unquote.run rest
      let rest ← colon rest
      let (value, rest) ← item.run rest
      return ((key, value), rest)
    else .error ⟨.keyNotString, c :: rest, 1⟩

theorem colon_shorter {s rest : List Char} (h : colon s = .ok rest) : rest.length < s.length := by
  have space := skipSpace_length_le s
  unfold colon at h
  split at h
  next => cases h
  next hs =>
    rw [hs, List.length_cons] at space
    split at h
    next => cases h; exact space
    next => cases h

theorem member_shorter {item : Reader Value} {s rest : List Char} {entry : String × Value}
    (h : member item s = .ok (entry, rest)) : rest.length < s.length := by
  cases s with
  | nil => cases h
  | cons c tail =>
      simp only [member] at h
      split at h
      next =>
        obtain ⟨key, hkey, h⟩ := ok_of_bind h
        obtain ⟨after, hcolon, h⟩ := ok_of_bind h
        obtain ⟨value, hvalue, h⟩ := ok_of_bind h
        cases h
        have := unquote.shrinks hkey
        have := colon_shorter hcolon
        have := item.shrinks hvalue
        simp only [List.length_cons]
        omega
      next => cases h

/-- Reads members up to the closing brace; `read` holds those so far, last first. -/
def members (item : Reader Value) (read : List (String × Value)) (s : List Char) :
    Except Failure (List (String × Value) × List Char) :=
  match _ : member item s with
  | .error failure => .error failure
  | .ok (entry, rest) =>
    match _ : skipSpace rest with
    | [] => .error ⟨.endInObject, [], 1⟩
    | c :: after =>
      if c = '\x7d' then .ok ((entry :: read).reverse, after)
      else if c = ',' then
        match _ : skipSpace after with
        | '\x7d' :: after => .error ⟨.trailingComma, '\x7d' :: after, 1⟩
        | next => members item (entry :: read) next
      else .error ⟨.expectedObjectEnd, c :: after, 1⟩
termination_by s.length
decreasing_by
  have := member_shorter ‹_›
  have := skipSpace_length_le rest
  have := skipSpace_length_le after
  simp_all only [List.length_cons]
  omega

/-- Reads what follows an opening brace. -/
def object (item : Reader Value) (s : List Char) :
    Except Failure (List (String × Value) × List Char) :=
  match skipSpace s with
  | [] => .error ⟨.endInObject, [], 1⟩
  | c :: rest => if c = '\x7d' then .ok ([], rest) else members item [] (c :: rest)

/-- Reads a value that begins without white space; `item` reads the members of its containers,
which are refused when there is none. -/
def valueFrom (item : Option (Reader Value)) : List Char → Except Failure (Value × List Char)
  | [] => .error ⟨.endInValue, [], 1⟩
  | c :: rest =>
    if c = '[' ∨ c = '\x7b' then
      match item with
      | none => .error ⟨.tooDeep, c :: rest, 1⟩
      | some item =>
        if c = '[' then (list item rest).map fun (items, rest) => (.array items, rest)
        else
          (object item rest).map fun (entries, rest) => (.object (Table.ofBindings entries), rest)
    else scalar (c :: rest)

theorem keyword_length_le {value result : Value} {letters s rest : List Char}
    (h : keyword value letters s = .ok (result, rest)) : rest.length ≤ s.length := by
  fun_induction keyword value letters s with
  | case1 => cases h; exact Nat.le_refl _
  | case2 => cases h
  | case3 _ _ _ ih => exact Nat.le_succ_of_le (ih h)
  | case4 => cases h

theorem scalar_shorter {s rest : List Char} {value : Value}
    (h : scalar s = .ok (value, rest)) : rest.length < s.length := by
  cases s with
  | nil => cases h
  | cons c tail =>
      simp only [scalar] at h
      split at h
      next =>
        obtain ⟨_, hread, heq⟩ := ok_of_map h
        cases heq
        exact Nat.lt_succ_of_lt (unquote.shrinks hread)
      split at h
      next => exact Nat.lt_succ_of_le (keyword_length_le h)
      split at h
      next => exact Nat.lt_succ_of_le (keyword_length_le h)
      split at h
      next => exact Nat.lt_succ_of_le (keyword_length_le h)
      split at h
      next =>
        obtain ⟨_, hread, heq⟩ := ok_of_map h
        cases heq
        exact Nat.lt_succ_of_lt (unsigned_shorter hread)
      split at h
      next =>
        obtain ⟨_, hread, heq⟩ := ok_of_map h
        cases heq
        exact unsigned_shorter hread
      next => cases h

theorem elements_shorter {item : Reader Value} {read items : List Value} {s rest : List Char}
    (h : elements item read s = .ok (items, rest)) : rest.length < s.length := by
  fun_induction elements item read s with
  | case1 => cases h
  | case2 => cases h
  | case3 read s value after hitem tail hspace =>
      cases h
      have := item.shrinks hitem
      have := skipSpace_length_le after
      rw [hspace, List.length_cons] at this
      omega
  | case4 => cases h
  | case5 read s value after hitem tail _ hspace _ ih =>
      have := ih h
      have := item.shrinks hitem
      have := skipSpace_length_le after
      rw [hspace, List.length_cons] at this
      omega
  | case6 => cases h

theorem members_shorter {item : Reader Value} {read entries : List (String × Value)}
    {s rest : List Char} (h : members item read s = .ok (entries, rest)) :
    rest.length < s.length := by
  fun_induction members item read s with
  | case1 => cases h
  | case2 => cases h
  | case3 read s entry after hentry tail hspace =>
      cases h
      have := member_shorter hentry
      have := skipSpace_length_le after
      rw [hspace, List.length_cons] at this
      omega
  | case4 => cases h
  | case5 read s entry after hentry tail hspace _ _ ih =>
      have := ih h
      have := member_shorter hentry
      have := skipSpace_length_le after
      rw [hspace, List.length_cons] at this
      have := skipSpace_length_le tail
      omega
  | case6 => cases h

theorem list_length_le {item : Reader Value} {items : List Value} {s rest : List Char}
    (h : list item s = .ok (items, rest)) : rest.length ≤ s.length := by
  have space := skipSpace_length_le s
  unfold list at h
  split at h
  next => cases h
  next hs =>
    rw [hs] at space
    split at h
    next => cases h; exact Nat.le_of_succ_le space
    next => exact Nat.le_trans (Nat.le_of_lt (elements_shorter h)) space

theorem object_length_le {item : Reader Value} {entries : List (String × Value)}
    {s rest : List Char} (h : object item s = .ok (entries, rest)) : rest.length ≤ s.length := by
  have space := skipSpace_length_le s
  unfold object at h
  split at h
  next => cases h
  next hs =>
    rw [hs] at space
    split at h
    next => cases h; exact Nat.le_of_succ_le space
    next => exact Nat.le_trans (Nat.le_of_lt (members_shorter h)) space

theorem valueFrom_shorter {item : Option (Reader Value)} {value : Value} {s rest : List Char}
    (h : valueFrom item s = .ok (value, rest)) : rest.length < s.length := by
  cases s with
  | nil => cases h
  | cons c tail =>
      simp only [valueFrom] at h
      split at h
      next =>
        cases item with
        | none => cases h
        | some item =>
            simp only at h
            split at h
            next =>
              obtain ⟨_, hread, heq⟩ := ok_of_map h
              cases heq
              exact Nat.lt_succ_of_le (list_length_le hread)
            next =>
              obtain ⟨_, hread, heq⟩ := ok_of_map h
              cases heq
              exact Nat.lt_succ_of_le (object_length_le hread)
      next => exact scalar_shorter h

/-- Reads a value after white space. -/
def valueWith (item : Option (Reader Value)) : Reader Value where
  run s := valueFrom item (skipSpace s)
  shrinks h := Nat.lt_of_lt_of_le (valueFrom_shorter h) (skipSpace_length_le _)

/-- Reads a value in which containers nest at most so deep. -/
def value : Nat → Reader Value
  | 0 => valueWith none
  | depth + 1 => valueWith (some (value depth))

/-- The number of containers a document may nest. -/
def deepest : Nat := 127

/-- A text that holds one value, in which containers nest at most so deep. -/
def read (depth : Nat) (s : List Char) : Except Failure Value := do
  let (value, rest) ← (value depth).run s
  match skipSpace rest with
  | [] => return value
  | rest => throw ⟨.trailingCharacters, rest, 1⟩

/-- Reads a document. -/
def parse (s : String) : Except SyntaxError Value :=
  (read deepest s.toList).mapError (·.locate s.toList)

end Extraction.Json
