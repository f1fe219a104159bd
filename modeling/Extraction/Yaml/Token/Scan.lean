import Extraction.Yaml.Token.Block
import Extraction.Yaml.Token.Plain
import Extraction.Yaml.Token.Quoted

/-! # The tokens of a text

Tokens are read one after the other. A colon may show only later that a mapping
began at an earlier token, so tokens are held back as long as the first of them
may turn out to be a key. Such a key must lie on one line, within 1024
characters.
-/

namespace Extraction.Yaml

/-- A token that may turn out to be a key: its number, its place, and whether it must be one. -/
structure PossibleKey where
  number : Nat
  mark : Mark
  isRequired : Bool

/-- A text while its tokens are read. -/
structure Scanner where
  cursor : Cursor
  /-- Tokens held back, in order. -/
  queue : List Token := []
  /-- How many tokens have been given out. -/
  given : Nat := 0
  /-- The column of the innermost block collection, or -1 outside of all. -/
  indent : Int := -1
  /-- The columns of the collections around it, innermost first. -/
  outer : List Int := []
  /-- The possible key of each open flow collection, innermost first, and of the block level. -/
  keys : List (Option PossibleKey) := [none]
  /-- Whether a key may begin at the next token. -/
  allowsKey : Bool := true

namespace Scanner

def inFlow (s : Scanner) : Bool := 1 < s.keys.length

def mark (s : Scanner) : Mark := s.cursor.mark

def add (s : Scanner) (kind : TokenKind) (mark : Mark) : Scanner :=
  { s with queue := s.queue ++ [⟨kind, mark⟩] }

/-- Adds a token in front of the token of a number. -/
def addAt (s : Scanner) (number : Nat) (kind : TokenKind) (mark : Mark) : Scanner :=
  let place := number - s.given
  { s with queue := s.queue.take place ++ ⟨kind, mark⟩ :: s.queue.drop place }

/-- Adds a token of some characters, none of which ends a line. -/
def addHere (s : Scanner) (kind : TokenKind) (width : Nat) : Scanner :=
  { s.add kind s.mark with cursor := s.cursor.skip width }

/-- A required key without its colon. -/
def missingColon (s : Scanner) (key : PossibleKey) : Fault :=
  s.cursor.fault .missingColon .simpleKey key.mark

/-- The keys that are still possible at this place. -/
def checkKeys (s : Scanner) : List (Option PossibleKey) → Except Fault (List (Option PossibleKey))
  | [] => .ok []
  | none :: rest => (s.checkKeys rest).map (none :: ·)
  | some key :: rest =>
    if key.mark.line < s.mark.line || key.mark.index + 1024 < s.mark.index then
      if key.isRequired then .error (s.missingColon key) else (s.checkKeys rest).map (none :: ·)
    else (s.checkKeys rest).map (some key :: ·)

/-- Drops keys that are not possible any more, beginning with the outermost. -/
def dropStaleKeys (s : Scanner) : Except Fault Scanner :=
  (s.checkKeys s.keys.reverse).map fun keys => { s with keys := keys.reverse }

/-- The innermost level has no possible key any more. -/
def removeKey (s : Scanner) : Except Fault Scanner :=
  match s.keys with
  | some key :: outer =>
    if key.isRequired then .error (s.missingColon key) else .ok { s with keys := none :: outer }
  | _ => .ok s

/-- The next token is a possible key. In a block mapping it must be one. -/
def saveKey (s : Scanner) : Except Fault Scanner :=
  if s.allowsKey then
    s.removeKey.map fun s =>
      { s with
        keys := some ⟨s.given + s.queue.length, s.mark,
          !s.inFlow && s.indent == (s.mark.column : Int)⟩ :: s.keys.drop 1 }
  else .ok s

/-- Opens the block collection that begins at a column, if it is deeper than the innermost one.
Its token stands in front of the token of a number, or at the end. -/
def openBlock (s : Scanner) (kind : TokenKind) (mark : Mark) (number : Option Nat) : Scanner :=
  if !s.inFlow && decide (s.indent < (mark.column : Int)) then
    let s := match number with
      | some number => s.addAt number kind mark
      | none => s.add kind mark
    { s with outer := s.indent :: s.outer, indent := mark.column }
  else s

/-- Closes the block collections deeper than a column; `outer` holds the columns around. -/
def closeBlocksFrom (s : Scanner) (column : Int) : List Int → Scanner
  | [] => s
  | next :: outer =>
    if column < s.indent then
      closeBlocksFrom { s.add .blockEnd s.mark with indent := next, outer := outer } column outer
    else s

def closeBlocks (s : Scanner) (column : Int) : Scanner :=
  if s.inFlow then s else s.closeBlocksFrom column s.outer

/-- Past a byte order mark at the beginning of a line, blanks and a comment. Tabs do not count as
blanks where a key may begin in a block. -/
def skipBlanks (s : Scanner) : Cursor :=
  let c := if s.mark.column == 0 && s.cursor.isAt '\ufeff' then s.cursor.skip 1 else s.cursor
  (c.skipWhile fun char => char == ' ' || ((s.inFlow || !s.allowsKey) && char == '\t')).skipComment

theorem skipBlanks_size_le (s : Scanner) : s.skipBlanks.size ≤ s.cursor.size := by
  refine Nat.le_trans (Cursor.size_skipComment_le _) (Nat.le_trans (Cursor.size_skip_le _ _) ?_)
  split
  next => exact s.cursor.size_skip_le 1
  next => exact Nat.le_refl _

/-- Past everything that stands between tokens. In a block a key may begin on each new line. -/
def skipToToken (s : Scanner) : Scanner :=
  let c := s.skipBlanks
  match _ : c.lineEnd? with
  | none => { s with cursor := c }
  | some (count, _) =>
    skipToToken { s with cursor := c.nextLine count, allowsKey := s.allowsKey || !s.inFlow }
termination_by s.cursor.size
decreasing_by exact Nat.lt_of_lt_of_le (Cursor.size_nextLine_lt ‹_›) s.skipBlanks_size_le

theorem skipToToken_size_le (s : Scanner) : s.skipToToken.cursor.size ≤ s.cursor.size := by
  fun_induction skipToToken s with
  | case1 s => exact s.skipBlanks_size_le
  | case2 s _ _ _ _ ih =>
      exact Nat.le_trans ih (Nat.le_trans (Cursor.size_nextLine_le _ _) s.skipBlanks_size_le)

/-- Ends the text, on a line of its own. -/
def endStream (s : Scanner) : Except Fault Scanner := do
  let s := if s.mark.column == 0 then s else { s with cursor := s.cursor.nextLine 0 }
  let s ← (s.closeBlocks (-1)).removeKey
  return { s with allowsKey := false }.add .streamEnd s.mark

/-- Ends all block collections for a directive or the mark of a document. -/
def leaveDocument (s : Scanner) : Except Fault Scanner := do
  let s ← (s.closeBlocks (-1)).removeKey
  return { s with allowsKey := false }

def openFlow (s : Scanner) (kind : TokenKind) : Except Fault Scanner := do
  let s ← s.saveKey
  return { s with keys := none :: s.keys, allowsKey := true }.addHere kind 1

def closeFlow (s : Scanner) (kind : TokenKind) : Except Fault Scanner := do
  let s ← s.removeKey
  let keys := if s.inFlow then s.keys.drop 1 else s.keys
  return { s with keys, allowsKey := false }.addHere kind 1

def flowEntry (s : Scanner) : Except Fault Scanner := do
  let s ← s.removeKey
  return { s with allowsKey := true }.addHere .flowEntry 1

def blockEntry (s : Scanner) : Except Fault Scanner := do
  if !s.inFlow && !s.allowsKey then throw ⟨.misplacedEntry, s.mark, none⟩
  let s ← (s.openBlock .blockSequenceStart s.mark none).removeKey
  return { s with allowsKey := true }.addHere .blockEntry 1

def explicitKey (s : Scanner) : Except Fault Scanner := do
  if !s.inFlow && !s.allowsKey then throw ⟨.misplacedKey, s.mark, none⟩
  let s ← (s.openBlock .blockMappingStart s.mark none).removeKey
  return { s with allowsKey := !s.inFlow }.addHere .key 1

def value (s : Scanner) : Except Fault Scanner := do
  match s.keys with
  | some key :: outer =>
    let s := s.addAt key.number .key key.mark
    let s := s.openBlock .blockMappingStart key.mark (some key.number)
    return { s with keys := none :: outer, allowsKey := false }.addHere .value 1
  | _ =>
    if !s.inFlow && !s.allowsKey then throw ⟨.misplacedValue, s.mark, none⟩
    let s := s.openBlock .blockMappingStart s.mark none
    return { s with allowsKey := !s.inFlow }.addHere .value 1

/-- Adds a token that was read from this place. -/
def take (s : Scanner) (read : Except Fault (Token × Cursor)) : Except Fault Scanner :=
  read.map fun (token, cursor) => { s with cursor, queue := s.queue ++ [token] }

/-- Reads a token that may be a key. -/
def takeKey (s : Scanner) (read : Cursor → Except Fault (Token × Cursor)) :
    Except Fault Scanner := do
  let s ← s.saveKey
  { s with allowsKey := false }.take (read s.cursor)

/-- Reads an anchor or alias. -/
def takeName (s : Scanner) (activity : Activity) (kind : List Char → TokenKind) :
    Except Fault Scanner :=
  s.takeKey fun c => (anchorName activity c).map fun (name, next) => (⟨kind name, c.mark⟩, next)

def takeBlock (s : Scanner) (style : Style) : Except Fault Scanner := do
  let s ← s.removeKey
  { s with allowsKey := true }.take (blockToken style s.indent s.cursor)

def takePlain (s : Scanner) (char : Char) : Except Fault Scanner := do
  let s ← s.saveKey
  let ((token, newLine), cursor) ← plainToken s.inFlow (s.indent + 1) char s.cursor
  return { s with cursor, queue := s.queue ++ [token], allowsKey := newLine }

/-- Whether a plain scalar may begin here. Some indicators may begin one when no blank follows. -/
def beginsPlain (inFlow : Bool) (c : Cursor) : Bool :=
  match c.rest with
  | [] => false
  | char :: rest =>
    !(isBlankOrBreak char || "-?:,[]\x7b\x7d#&*!|>'\"%@`".toList.contains char) ||
      (char == '-' && !rest.head?.any isBlank) ||
      (!inFlow && (char == '?' || char == ':') && !beginsBlank rest)

/-- Reads the token that begins here. -/
def readToken (s : Scanner) (char : Char) : Except Fault Scanner :=
  let c := s.cursor
  let blankNext := c.isBlankAhead 1
  if s.mark.column == 0 && char == '%' then do
    let s ← s.leaveDocument
    s.take (directiveToken s.cursor)
  else if c.isAtDocumentMark then
    s.leaveDocument.map (·.addHere (if char = '-' then .documentStart else .documentEnd) 3)
  else if char = '[' then s.openFlow .flowSequenceStart
  else if char = '\x7b' then s.openFlow .flowMappingStart
  else if char = ']' then s.closeFlow .flowSequenceEnd
  else if char = '\x7d' then s.closeFlow .flowMappingEnd
  else if char = ',' then s.flowEntry
  else if char = '-' && blankNext then s.blockEntry
  else if char = '?' && (s.inFlow || blankNext) then s.explicitKey
  else if char = ':' && (s.inFlow || blankNext) then s.value
  else if char = '*' then s.takeName .aliasName .aliasOf
  else if char = '&' then s.takeName .anchor .anchor
  else if char = '!' then s.takeKey (tagToken s.inFlow)
  else if char = '|' && !s.inFlow then s.takeBlock .literal
  else if char = '>' && !s.inFlow then s.takeBlock .folded
  else if char = '\'' then s.takeKey (quotedToken .single)
  else if char = '"' then s.takeKey (quotedToken .double)
  else if beginsPlain s.inFlow c then s.takePlain char
  else .error (c.fault .badTokenStart .nextToken s.mark)

/-- Goes to the next token, where keys may not be possible any more and blocks may end. -/
def arrive (s : Scanner) : Except Fault Scanner :=
  s.skipToToken.dropStaleKeys.map fun s => s.closeBlocks s.mark.column

/-- Whether the first token held back may still turn out to be a key. -/
def mustWait (s : Scanner) : Bool := s.keys.any (·.any (·.number == s.given))

/-- Gives out tokens as long as the first one need not wait; `queue` holds those held back. -/
def give (s : Scanner) (read : List Token) : List Token → List Token × Scanner
  | [] => (read, { s with queue := [] })
  | token :: queue =>
    if s.mustWait then (read, { s with queue := token :: queue })
    else give { s with given := s.given + 1 } (token :: read) queue

theorem closeBlocksFrom_cursor (s : Scanner) (column : Int) (outer : List Int) :
    (s.closeBlocksFrom column outer).cursor = s.cursor := by
  induction outer generalizing s with
  | nil => rfl
  | cons _ _ ih =>
      unfold closeBlocksFrom
      split
      next => exact ih _
      next => rfl

theorem closeBlocks_cursor (s : Scanner) (column : Int) :
    (s.closeBlocks column).cursor = s.cursor := by
  unfold closeBlocks
  split
  next => rfl
  next => exact s.closeBlocksFrom_cursor column _

theorem openBlock_cursor (s : Scanner) (kind : TokenKind) (mark : Mark) (number : Option Nat) :
    (s.openBlock kind mark number).cursor = s.cursor := by
  unfold openBlock
  split
  next => cases number <;> rfl
  next => rfl

theorem dropStaleKeys_cursor {s next : Scanner} (h : s.dropStaleKeys = .ok next) :
    next.cursor = s.cursor := by
  obtain ⟨_, _, heq⟩ := ok_of_map h
  exact heq ▸ rfl

theorem removeKey_cursor {s next : Scanner} (h : s.removeKey = .ok next) :
    next.cursor = s.cursor := by
  unfold removeKey at h
  split at h
  next =>
    split at h
    next => cases h
    next => cases h; rfl
  next => cases h; rfl

theorem saveKey_cursor {s next : Scanner} (h : s.saveKey = .ok next) :
    next.cursor = s.cursor := by
  unfold saveKey at h
  split at h
  next =>
    obtain ⟨last, hremove, heq⟩ := ok_of_map h
    have same := removeKey_cursor hremove
    rw [← heq]
    exact same
  next => cases h; rfl

theorem leaveDocument_cursor {s next : Scanner} (h : s.leaveDocument = .ok next) :
    next.cursor = s.cursor := by
  obtain ⟨_, hremove, heq⟩ := ok_of_bind h
  cases heq
  exact (removeKey_cursor hremove).trans (s.closeBlocks_cursor _)

theorem arrive_size_le {s next : Scanner} (h : s.arrive = .ok next) :
    next.cursor.size ≤ s.cursor.size := by
  obtain ⟨_, hdrop, heq⟩ := ok_of_map h
  rw [← heq, closeBlocks_cursor, dropStaleKeys_cursor hdrop]
  exact s.skipToToken_size_le

theorem give_cursor {s last : Scanner} {read queue given : List Token}
    (h : s.give read queue = (given, last)) : last.cursor = s.cursor := by
  induction queue generalizing s read with
  | nil => cases h; rfl
  | cons _ _ ih => exact of_branches h (fun h => by cases h; rfl) ih

theorem take_size_lt {s next : Scanner} {c : Cursor} {read : Except Fault (Token × Cursor)}
    (hread : ∀ {token after}, read = .ok (token, after) → after.size < c.size)
    (h : s.take read = .ok next) : next.cursor.size < c.size := by
  obtain ⟨⟨_, _⟩, hok, heq⟩ := ok_of_map h
  exact heq ▸ hread hok

/-- A step that leaves the cursor where it is comes before the token of one character. -/
theorem indicator_size_lt {s next : Scanner} {step : Except Fault Scanner}
    {add : Scanner → Scanner} {char : Char} {rest : List Char} (hc : s.cursor.rest = char :: rest)
    (hstep : ∀ {middle}, step = .ok middle → middle.cursor = s.cursor)
    (hadd : ∀ middle, (add middle).cursor = middle.cursor.skip 1)
    (h : (step >>= fun middle => pure (add middle)) = .ok next) :
    next.cursor.size < s.cursor.size := by
  obtain ⟨middle, hok, heq⟩ := ok_of_bind h
  cases heq
  rw [hadd, hstep hok]
  exact Cursor.size_skip_lt hc 0

/-- A block collection may have to be opened for the token. -/
theorem openBlock_removeKey_cursor {s next : Scanner} {kind : TokenKind}
    (h : (s.openBlock kind s.mark none).removeKey = .ok next) : next.cursor = s.cursor :=
  (removeKey_cursor h).trans (s.openBlock_cursor ..)

theorem value_cursor {s next : Scanner} (h : s.value = .ok next) :
    next.cursor = s.cursor.skip 1 := by
  unfold value at h
  split at h
  next => cases h; exact congrArg (·.skip 1) (openBlock_cursor ..)
  next =>
    split at h
    next => cases h
    next => cases h; exact congrArg (·.skip 1) (openBlock_cursor ..)

theorem takeKey_size_lt {s next : Scanner} {read : Cursor → Except Fault (Token × Cursor)}
    (hread : ∀ {token after}, read s.cursor = .ok (token, after) → after.size < s.cursor.size)
    (h : s.takeKey read = .ok next) : next.cursor.size < s.cursor.size := by
  obtain ⟨_, hsave, h⟩ := ok_of_bind h
  rw [saveKey_cursor hsave] at h
  exact take_size_lt hread h

theorem takeName_size_lt {s next : Scanner} {activity : Activity}
    {kind : List Char → TokenKind} {char : Char} {rest : List Char}
    (hc : s.cursor.rest = char :: rest) (h : s.takeName activity kind = .ok next) :
    next.cursor.size < s.cursor.size := by
  refine takeKey_size_lt (fun hread => ?_) h
  obtain ⟨⟨_, _⟩, hname, heq⟩ := ok_of_map hread
  cases heq
  exact anchorName_size_lt hc hname

theorem takeBlock_size_lt {s next : Scanner} {style : Style} {char : Char} {rest : List Char}
    (hc : s.cursor.rest = char :: rest) (h : s.takeBlock style = .ok next) :
    next.cursor.size < s.cursor.size := by
  obtain ⟨_, hremove, h⟩ := ok_of_bind h
  rw [removeKey_cursor hremove] at h
  exact take_size_lt (blockToken_size_lt hc) h

theorem takePlain_size_lt {s next : Scanner} {char : Char} {rest : List Char}
    (hc : s.cursor.rest = char :: rest) (h : s.takePlain char = .ok next) :
    next.cursor.size < s.cursor.size := by
  obtain ⟨_, hsave, h⟩ := ok_of_bind h
  rw [saveKey_cursor hsave] at h
  obtain ⟨⟨⟨_, _⟩, _⟩, hplain, heq⟩ := ok_of_bind h
  cases heq
  exact plainToken_size_lt hc hplain

/-- A token takes in at least one character. -/
theorem readToken_size_lt {s next : Scanner} {char : Char} {rest : List Char}
    (hc : s.cursor.rest = char :: rest) (h : s.readToken char = .ok next) :
    next.cursor.size < s.cursor.size := by
  refine of_branches h (fun h => ?_) fun h => ?_
  · obtain ⟨_, hleave, h⟩ := ok_of_bind h
    rw [leaveDocument_cursor hleave] at h
    exact take_size_lt (directiveToken_size_lt hc) h
  refine of_branches h (fun h => ?_) fun h => ?_
  · obtain ⟨_, hleave, heq⟩ := ok_of_map h
    cases heq
    rw [addHere, leaveDocument_cursor hleave]
    exact Cursor.size_skip_lt hc 2
  refine of_branches h (indicator_size_lt hc saveKey_cursor fun _ => rfl) fun h => ?_
  refine of_branches h (indicator_size_lt hc saveKey_cursor fun _ => rfl) fun h => ?_
  refine of_branches h (indicator_size_lt hc removeKey_cursor fun _ => rfl) fun h => ?_
  refine of_branches h (indicator_size_lt hc removeKey_cursor fun _ => rfl) fun h => ?_
  refine of_branches h (indicator_size_lt hc removeKey_cursor fun _ => rfl) fun h => ?_
  refine of_branches h (fun h => of_branches h nofun
    (indicator_size_lt hc openBlock_removeKey_cursor fun _ => rfl)) fun h => ?_
  refine of_branches h (fun h => of_branches h nofun
    (indicator_size_lt hc openBlock_removeKey_cursor fun _ => rfl)) fun h => ?_
  refine of_branches h (fun h => ?_) fun h => ?_
  · rw [value_cursor h]
    exact Cursor.size_skip_lt hc 0
  refine of_branches h (takeName_size_lt hc) fun h => ?_
  refine of_branches h (takeName_size_lt hc) fun h => ?_
  refine of_branches h (takeKey_size_lt (tagToken_size_lt hc)) fun h => ?_
  refine of_branches h (takeBlock_size_lt hc) fun h => ?_
  refine of_branches h (takeBlock_size_lt hc) fun h => ?_
  refine of_branches h (takeKey_size_lt (quotedToken_size_lt hc)) fun h => ?_
  refine of_branches h (takeKey_size_lt (quotedToken_size_lt hc)) fun h => ?_
  refine of_branches h (takePlain_size_lt hc) fun h => ?_
  cases h

end Scanner

/-- The tokens of a text up to the first fault. -/
structure Tokens where
  tokens : List Token
  fault : Option Fault

/-- Reads tokens to the end; `read` holds those given out so far, last first. -/
def tokensFrom (read : List Token) (s : Scanner) : Tokens :=
  match _ : s.arrive with
  | .error fault => ⟨read.reverse, some fault⟩
  | .ok here =>
    match _ : here.cursor.rest with
    | [] =>
      match here.endStream.bind Scanner.dropStaleKeys with
      | .error fault => ⟨read.reverse, some fault⟩
      | .ok last => ⟨read.reverse ++ last.queue, none⟩
    | char :: _ =>
      match _ : here.readToken char with
      | .error fault => ⟨read.reverse, some fault⟩
      | .ok after =>
        match _ : after.dropStaleKeys with
        | .error fault => ⟨read.reverse, some fault⟩
        | .ok next =>
          match _ : next.give read next.queue with
          | (read, last) => tokensFrom read last
termination_by s.cursor.size
decreasing_by
  rw [Scanner.give_cursor ‹_›, Scanner.dropStaleKeys_cursor ‹_›]
  exact Nat.lt_of_lt_of_le (Scanner.readToken_size_lt ‹_› ‹_›) (Scanner.arrive_size_le ‹_›)

/-- The tokens of a text. -/
def tokensOf (text : List Char) : Tokens := tokensFrom [] { cursor := Cursor.ofText text }

end Extraction.Yaml
